import PicHost.Api.BackupRuns

/-!
# Concurrent updates of the configuration file

An update reads the file twice, merges what it has read and writes the whole file in place. Other
updates come in between, and a write that fails leaves the beginning of the text.
-/

namespace PicHost.UpdateAtomicity

open AdminConfig BackupRuns ConfigFile TomlDocument
open FileTree (Fault)

/-! ## The steps of a request -/

/-- What a request holds after each of its steps. -/
inductive Phase
  | fresh
  | read (existing : SystemConfig)
  | reopened (existing : SystemConfig) (file : File)
  /-- Whether the write has left the bytes as they were. -/
  | written (unchanged : Bool)
  | ended

structure State where
  content : List UInt8
  phase : ℕ → Phase

/-- One step of one request. A read can be refused, and so can the write, which may also stop
early. -/
inductive Action
  | read (i : ℕ) (refused : Option String)
  | reopen (i : ℕ) (refused : Option String)
  | write (i : ℕ) (fault : Option Fault)
  | reply (i : ℕ) (refused : Option String)

/-- The request that takes the step. -/
def Action.request : Action → ℕ
  | .read i _ => i
  | .reopen i _ => i
  | .write i _ => i
  | .reply i _ => i

def seen (refused : Option String) (content : List UInt8) : File :=
  match refused with
  | some message => .unreadable message
  | none => ofBytes content

def State.enter (s : State) (i : ℕ) (phase : Phase) : State :=
  { s with phase := Function.update s.phase i phase }

section Steps

variable (toml : TomlEdit) (server : Server) (bodies : ℕ → UpdateConfigBody)

/-- What the request writes in this phase, as text. -/
def toWrite (i : ℕ) (existing : SystemConfig) (file : File) : Written :=
  writeConfigToml toml none file (mergedConfig server (bodies i) existing)

/-- The state after the step, and the reply, if the step is the last one of its request. -/
def act (s : State) : Action → State × Option (Outcome ConfigResponse)
  | .read i refused =>
    match s.phase i with
    | .fresh =>
      (s.enter i (.read ((readConfigToml toml (seen refused s.content)).toOption.getD {})), none)
    | _ => (s, none)
  -- `write_config_toml` reads the file itself, after the handler has merged what it had read
  | .reopen i refused =>
    match s.phase i with
    | .read existing => (s.enter i (.reopened existing (seen refused s.content)), none)
    | _ => (s, none)
  | .write i fault =>
    match s.phase i with
    | .reopened existing file =>
      match toWrite toml server bodies i existing file with
      | .panicked => (s.enter i .ended, some .panicked)
      | .failed e => (s.enter i .ended, some (.replied (.error (writeFailed e))))
      | .saved text =>
        match fault with
        | none =>
          ({ s with content := toBytes text }.enter i
            -- the answer reads the file once more and may still fail
            (.written (decide (toBytes text = s.content))), none)
        | some (.refused message) =>
          (s.enter i .ended, some (.replied (.error (writeFailed (.io message)))))
        | some (.cut n message) =>
          ({ s with content := (toBytes text).take n }.enter i .ended,
            some (.replied (.error (writeFailed (.io message)))))
    | _ => (s, none)
  | .reply i refused =>
    match s.phase i with
    | .written _ =>
      (s.enter i .ended, some (.replied (getAdminConfig toml server (seen refused s.content))))
    | _ => (s, none)

def step (s : State) (a : Action) : State := (act toml server bodies s a).1

def answer (s : State) (a : Action) : Option (Outcome ConfigResponse) :=
  (act toml server bodies s a).2

/-- The file parses and holds this item at the key of the field. -/
def Holds (f : Field) (item : Item) (content : List UInt8) : Prop :=
  ∃ doc, openDoc toml (ofBytes content) = .ok doc ∧ f.item doc = some item

/-- The request has left the file as it was. -/
def Untouched (s s' : State) (i : ℕ) : Prop :=
  s'.content = s.content ∧ s.phase i ≠ .written false

/-- What a step must do: keep every key that its request does not name, and leave the file as it
was if the request fails. -/
def Atomic (s : State) (a : Action) : Prop :=
  (∀ f, inBody (bodies a.request) f = none → ∀ item, Holds toml f item s.content →
    Holds toml f item (step toml server bodies s a).content) ∧
  ∀ e, answer toml server bodies s a = some (.replied (.error e)) →
    Untouched s (step toml server bodies s a) a.request

/-! ## When a step does it -/

/-- What an update falls back to where neither its body nor the file has the key. -/
def fallback : Field → Option String
  | .i18nLanguage => some server.language
  | .i18nLocalesDir => server.localesDir
  | _ => none

/-- What an update puts at a key that its body does not name: what it read first, else the
fallback. Without either the key is removed, unless it stands in an inline table. -/
def carried (existing : SystemConfig) (doc : Doc) (f : Field) : Option Item :=
  match (f.value existing).or (fallback server f) with
  | some v => some (.string v)
  | none => leftOver doc f

/-- The request is about to write the document. -/
def Pending (s : State) (i : ℕ) (existing : SystemConfig) (doc doc' : Doc) : Prop :=
  ∃ file, s.phase i = .reopened existing file ∧ openDoc toml file = .ok doc ∧
    setAll (mergedConfig server (bodies i) existing) doc = some doc'

def Guarded (s : State) : Action → Prop
  | .write i fault => ∀ existing doc doc', Pending toml server bodies s i existing doc doc' →
    (fault = none → ∀ f, inBody (bodies i) f = none → ∀ item, Holds toml f item s.content →
      carried server existing doc f = some item) ∧
    ∀ n message, fault = some (.cut n message) →
      (toBytes (toml.print doc')).take n = s.content
  | .reply i refused => s.phase i = .written false →
    refused = none ∧ ∃ doc, openDoc toml (ofBytes s.content) = .ok doc
  | _ => True

/-- The documents that the run writes parse again. -/
def RendersAt (s : State) : Action → Prop
  | .write i _ => ∀ existing doc doc', Pending toml server bodies s i existing doc doc' →
    toml.Renders doc'
  | _ => True

end Steps

variable {toml : TomlEdit} {server : Server} {bodies : ℕ → UpdateConfigBody} {s : State}
  {existing : SystemConfig} {file : File} {doc doc' : Doc} {f : Field} {item : Item} {i : ℕ}

/-- A request whose steps are not interrupted does what the handler does. -/
theorem alone_eq (fault : Option Fault) (hfresh : s.phase i = .fresh) :
    ofBytes ([.read i none, .reopen i none, .write i fault, .reply i none].foldl
      (step toml server bodies) s).content =
      (AdminConfig.updateAdminConfig toml server fault (ofBytes s.content) (bodies i)).1 := by
  set existing := (readConfigToml toml (ofBytes s.content)).toOption.getD {} with hexisting
  have hread : step toml server bodies s (.read i none) = s.enter i (.read existing) := by
    simp only [step, act, hfresh, seen, hexisting]
  have hreopen : step toml server bodies (s.enter i (.read existing)) (.reopen i none) =
      (s.enter i (.read existing)).enter i (.reopened existing (ofBytes s.content)) := by
    simp only [step, act, State.enter, Function.update_self, seen]
  have hreply (s : State) : (step toml server bodies s (.reply i none)).content = s.content := by
    cases hphase : s.phase i <;> simp only [step, act, hphase, State.enter]
  rw [List.foldl_cons, hread, List.foldl_cons, hreopen, List.foldl_cons, List.foldl_cons,
    List.foldl_nil, hreply, updateAdminConfig_file, ← hexisting]
  simp only [step, act, State.enter, Function.update_self, toWrite]
  cases writeConfigToml toml none (ofBytes s.content) (mergedConfig server (bodies i) existing) with
  | panicked => rfl
  | failed e => rfl
  | saved text =>
    cases fault with
    | none => rfl
    | some fault => cases fault <;> rfl

theorem value_omitted {body : UpdateConfigBody} (h : inBody body f = none) :
    f.value (mergedConfig server body existing) =
      (f.value existing).or (fallback server f) := by
  cases f <;>
    simp only [inBody] at h <;>
    simp only [Field.value, mergedConfig, fallback, h, Option.none_or, Option.or_none]

/-- The key of the document that an update writes. -/
theorem item_setAll {body : UpdateConfigBody} (h : inBody body f = none)
    (hset : setAll (mergedConfig server body existing) doc = some doc') :
    f.item doc' = carried server existing doc f := by
  have hvalue := @value_omitted server existing f body h
  unfold carried
  cases hcarried : (f.value existing).or (fallback server f) with
  | some v =>
    rw [hcarried] at hvalue
    exact setAll_item hset hvalue
  | none =>
    rw [hcarried] at hvalue
    exact setAll_item_none hset hvalue

theorem holds_print_iff (h : toml.Renders doc') :
    Holds toml f item (toBytes (toml.print doc')) ↔ f.item doc' = some item := by
  obtain ⟨shown, hparse, hshown⟩ := h
  have hopen : openDoc toml (ofBytes (toBytes (toml.print doc'))) = .ok shown := by
    rw [ofBytes_toBytes, openDoc, hparse]
  have hitem : f.item shown = f.item doc' := value_rendered hshown ..
  rw [Holds, hopen, ← hitem]
  constructor
  · rintro ⟨doc, hdoc, hhold⟩
    rw [Except.ok.inj hdoc]
    exact hhold
  · exact fun hhold => ⟨shown, rfl, hhold⟩

/-- A step that leaves the bytes alone is atomic, unless its request fails after it has written. -/
theorem atomic_of_same {a : Action}
    (hcontent : (step toml server bodies s a).content = s.content)
    (hphase : ∀ e, answer toml server bodies s a = some (.replied (.error e)) →
      s.phase a.request ≠ .written false) : Atomic toml server bodies s a := by
  refine ⟨fun f _ item hhold => ?_, fun e he => ⟨hcontent, hphase e he⟩⟩
  rw [hcontent]
  exact hhold

/-- What is pending is what has been read, merged. -/
theorem Pending.eq {existing' : SystemConfig} {mid mid' : Doc}
    (hphase : s.phase i = .reopened existing file) (hopen : openDoc toml file = .ok doc)
    (hset : setAll (mergedConfig server (bodies i) existing) doc = some doc')
    (h : Pending toml server bodies s i existing' mid mid') :
    existing' = existing ∧ mid = doc ∧ mid' = doc' := by
  obtain ⟨file', hphase', hopen', hset'⟩ := h
  rw [hphase, Phase.reopened.injEq] at hphase'
  obtain ⟨rfl, rfl⟩ := hphase'
  rw [hopen, Except.ok.injEq] at hopen'
  rw [← hopen', hset, Option.some.injEq] at hset'
  exact ⟨rfl, hopen'.symm, hset'.symm⟩

theorem guarded_write_of_not_pending {fault : Option Fault}
    (h : ∀ existing doc doc', ¬ Pending toml server bodies s i existing doc doc') :
    Guarded toml server bodies s (.write i fault) := fun existing doc doc' hpending =>
  absurd hpending (h existing doc doc')

/-- A write that goes through. -/
theorem atomic_saved_iff
    (hact : act toml server bodies s (.write i none) =
      ({ s with content := toBytes (toml.print doc') }.enter i
        (.written (decide (toBytes (toml.print doc') = s.content))), none))
    (hset : setAll (mergedConfig server (bodies i) existing) doc = some doc')
    (hrender : toml.Renders doc') :
    Atomic toml server bodies s (.write i none) ↔
      ∀ f, inBody (bodies i) f = none → ∀ item, Holds toml f item s.content →
        carried server existing doc f = some item := by
  rw [Atomic, step, answer, hact, and_iff_left]
  · refine forall₂_congr fun f homitted => forall₂_congr fun item _ => ?_
    rw [← item_setAll homitted hset]
    exact holds_print_iff hrender
  · intro e h
    cases h

/-- A write that is cut short is answered as refused, so it must have left the file alone. -/
theorem atomic_cut_iff {n : ℕ} {message : String}
    (hact : act toml server bodies s (.write i (some (.cut n message))) =
      ({ s with content := (toBytes (toml.print doc')).take n }.enter i .ended,
        some (.replied (.error (writeFailed (.io message))))))
    (hunwritten : s.phase i ≠ .written false) :
    Atomic toml server bodies s (.write i (some (.cut n message))) ↔
      (toBytes (toml.print doc')).take n = s.content := by
  have hstep : (step toml server bodies s (.write i (some (.cut n message)))).content =
      (toBytes (toml.print doc')).take n := by
    rw [step, hact]
    rfl
  constructor
  · rintro ⟨-, huntouched⟩
    rw [← hstep]
    exact (huntouched (writeFailed (.io message)) (by rw [answer, hact])).1
  · exact fun hcut => atomic_of_same (hstep.trans hcut) fun _ _ => hunwritten

/-- The write of a pending document. -/
theorem atomic_write_iff (fault : Option Fault)
    (hphase : s.phase i = .reopened existing file) (hopen : openDoc toml file = .ok doc)
    (hset : setAll (mergedConfig server (bodies i) existing) doc = some doc')
    (hrender : toml.Renders doc') :
    Atomic toml server bodies s (.write i fault) ↔
      (fault = none → ∀ f, inBody (bodies i) f = none → ∀ item, Holds toml f item s.content →
        carried server existing doc f = some item) ∧
      ∀ n message, fault = some (.cut n message) →
        (toBytes (toml.print doc')).take n = s.content := by
  have hwrite : toWrite toml server bodies i existing file = .saved (toml.print doc') :=
    (writeConfigToml_saved_iff hopen).mpr ⟨rfl, doc', hset, rfl⟩
  have hunwritten : s.phase i ≠ .written false := by
    rw [hphase]
    exact fun heq => by cases heq
  cases fault with
  | none =>
    rw [atomic_saved_iff (by simp only [act, hphase, hwrite]) hset hrender,
      forall_prop_of_true rfl, and_iff_left]
    intro n message h
    cases h
  | some fault =>
    cases fault with
    | refused message =>
      have hact : act toml server bodies s (.write i (some (.refused message))) =
          (s.enter i .ended, some (.replied (.error (writeFailed (.io message))))) := by
        simp only [act, hphase, hwrite]
      refine iff_of_true (atomic_of_same ?_ fun _ _ => hunwritten)
        ⟨fun h => (by cases h), fun _ _ h => by cases h⟩
      rw [step, hact]
      rfl
    | cut n message =>
      have hact : act toml server bodies s (.write i (some (.cut n message))) =
          ({ s with content := (toBytes (toml.print doc')).take n }.enter i .ended,
            some (.replied (.error (writeFailed (.io message))))) := by
        simp only [act, hphase, hwrite]
      rw [atomic_cut_iff hact hunwritten]
      refine ⟨fun hcut => ⟨fun h => (by cases h), fun n' message' h => ?_⟩, fun h => h.2 n _ rfl⟩
      injection h with h
      injection h with hn
      rw [← hn]
      exact hcut

/-- Nothing is pending where the file did not parse, or a section is no table. -/
theorem content_of_not_pending {fault : Option Fault}
    (h : ∀ existing doc doc', ¬ Pending toml server bodies s i existing doc doc') :
    (step toml server bodies s (.write i fault)).content = s.content := by
  cases hphase : s.phase i with
  | reopened existing file =>
    cases hwrite : toWrite toml server bodies i existing file with
    | panicked => simp only [step, act, hphase, hwrite, State.enter]
    | failed e => simp only [step, act, hphase, hwrite, State.enter]
    | saved text =>
      cases hopen : openDoc toml file with
      | error e =>
        rw [toWrite, writeConfigToml, hopen] at hwrite
        cases hwrite
      | ok doc =>
        obtain ⟨-, doc', hset, -⟩ := (writeConfigToml_saved_iff hopen).mp hwrite
        exact absurd ⟨file, hphase, hopen, hset⟩ (h existing doc doc')
  | _ => simp only [step, act, hphase]

/-- A request writes once. -/
theorem answer_of_written {fault : Option Fault} (h : s.phase i = .written false) :
    answer toml server bodies s (.write i fault) = none := by
  simp only [answer, act, h]

theorem write_iff (fault : Option Fault)
    (hrender : RendersAt toml server bodies s (.write i fault)) :
    Atomic toml server bodies s (.write i fault) ↔
      Guarded toml server bodies s (.write i fault) := by
  by_cases hpending : ∃ existing doc doc', Pending toml server bodies s i existing doc doc'
  · obtain ⟨existing, doc, doc', hpending⟩ := hpending
    have hrendered := hrender existing doc doc' hpending
    obtain ⟨file, hphase, hopen, hset⟩ := hpending
    rw [atomic_write_iff fault hphase hopen hset hrendered]
    constructor
    · intro h existing' mid mid' hpending
      obtain ⟨rfl, rfl, rfl⟩ := hpending.eq hphase hopen hset
      exact h
    · exact fun h => h existing doc doc' ⟨file, hphase, hopen, hset⟩
  · refine iff_of_true ?_ (guarded_write_of_not_pending fun existing doc doc' h =>
      hpending ⟨existing, doc, doc', h⟩)
    refine atomic_of_same (content_of_not_pending fun existing doc doc' h =>
      hpending ⟨existing, doc, doc', h⟩) fun e he hwritten => ?_
    rw [@answer_of_written toml server bodies s i fault hwritten] at he
    cases he

theorem readConfigToml_error {e : ConfigError} (h : openDoc toml file = .error e) :
    readConfigToml toml file = .error e := by
  cases file with
  | missing => cases h
  | unreadable message => exact congrArg Except.error (Except.error.inj h)
  | text content =>
    rw [openDoc] at h
    rw [readConfigToml]
    cases hparse : toml.parse content with
    | error message =>
      rw [hparse] at h
      exact congrArg Except.error (Except.error.inj h)
    | ok doc =>
      rw [hparse] at h
      cases h

/-- The reply shows the file unless it cannot be read or parsed. -/
theorem getAdminConfig_seen (refused : Option String) (content : List UInt8) :
    (∀ e, getAdminConfig toml server (seen refused content) ≠ .error e) ↔
      refused = none ∧ ∃ doc, openDoc toml (ofBytes content) = .ok doc := by
  cases refused with
  | some message =>
    have herror : getAdminConfig toml server (seen (some message) content) =
        .error { status := 500, key := "common.internal_error" } := rfl
    exact iff_of_false (fun h => h _ herror) fun h => by cases h.1
  | none =>
    rw [and_iff_right rfl, seen]
    cases hopen : openDoc toml (ofBytes content) with
    | ok doc =>
      have hget : getAdminConfig toml server (ofBytes content) =
          .ok (configResponse server (systemConfig doc)) := by
        rw [getAdminConfig, readConfigToml_open hopen]
      rw [hget]
      exact iff_of_true (fun e h => by cases h) ⟨doc, rfl⟩
    | error e =>
      have hget : getAdminConfig toml server (ofBytes content) =
          .error { status := 500, key := "common.internal_error" } := by
        rw [getAdminConfig, readConfigToml_error hopen]
      refine iff_of_false (fun h => h _ hget) fun h => ?_
      obtain ⟨doc, hdoc⟩ := h
      cases hdoc

theorem reply_iff (refused : Option String) :
    Atomic toml server bodies s (.reply i refused) ↔
      Guarded toml server bodies s (.reply i refused) := by
  have hcontent : (step toml server bodies s (.reply i refused)).content = s.content := by
    cases hphase : s.phase i <;> simp only [step, act, hphase, State.enter]
  by_cases hwritten : s.phase i = .written false
  · have hanswer : answer toml server bodies s (.reply i refused) =
        some (.replied (getAdminConfig toml server (seen refused s.content))) := by
      simp only [answer, act, hwritten]
    rw [Guarded, forall_prop_of_true hwritten, ← @getAdminConfig_seen toml server, Atomic,
      and_iff_right]
    · apply forall_congr'
      intro e
      rw [hanswer, Option.some.injEq, Outcome.replied.injEq]
      exact ⟨fun h hget => (h hget).2 hwritten, fun h hget => absurd hget h⟩
    · intro f _ item hhold
      rw [hcontent]
      exact hhold
  · exact iff_of_true (atomic_of_same hcontent fun _ _ => hwritten) fun h => absurd h hwritten

/-- A step is atomic exactly when it is guarded. -/
theorem atomic_iff_guarded (a : Action) (hrender : RendersAt toml server bodies s a) :
    Atomic toml server bodies s a ↔ Guarded toml server bodies s a := by
  cases a with
  | read i refused =>
    refine iff_of_true (atomic_of_same ?_ fun e he => ?_) trivial
    · cases hphase : s.phase i <;> simp only [step, act, hphase, State.enter]
    · cases hphase : s.phase i <;> simp only [answer, act, hphase] at he <;> cases he
  | reopen i refused =>
    refine iff_of_true (atomic_of_same ?_ fun e he => ?_) trivial
    · cases hphase : s.phase i <;> simp only [step, act, hphase, State.enter]
    · cases hphase : s.phase i <;> simp only [answer, act, hphase] at he <;> cases he
  | write i fault => exact write_iff fault hrender
  | reply i refused => exact reply_iff refused

/-- In every run of updates, all steps are atomic exactly when all are guarded. -/
theorem atomic_run_iff (toml : TomlEdit) (server : Server) (bodies : ℕ → UpdateConfigBody)
    (content : List UInt8) (as : List Action)
    (hrender : LabelledRun.AllSteps (step toml server bodies) (RendersAt toml server bodies)
      ⟨content, fun _ => .fresh⟩ as) :
    LabelledRun.AllSteps (step toml server bodies) (Atomic toml server bodies)
        ⟨content, fun _ => .fresh⟩ as ↔
      LabelledRun.AllSteps (step toml server bodies) (Guarded toml server bodies)
        ⟨content, fun _ => .fresh⟩ as :=
  LabelledRun.allSteps_congr_of_allSteps (fun _ a h => atomic_iff_guarded a h) hrender

/-! ## Two requests -/

@[simp] theorem enter_phase_self (s : State) (i : ℕ) (phase : Phase) :
    (s.enter i phase).phase i = phase := Function.update_self ..

theorem enter_phase_ne {j : ℕ} (h : j ≠ i) (s : State) (phase : Phase) :
    (s.enter i phase).phase j = s.phase j := Function.update_of_ne h ..

/-- The first sets the address of the database, the second nothing. -/
def twoBodies (i : ℕ) : UpdateConfigBody := if i = 0 then { databaseUrl := some maskedUrl } else {}

abbrev twoSteps : State → Action → State := step fullToml smallServer twoBodies

def stored (url : String) : List UInt8 := toBytes (fullText url redisUrl)

def openConfig : SystemConfig := systemConfig (fullDoc openUrl redisUrl)

theorem openDoc_stored {url : String} (h : url ∈ [openUrl, secretUrl, maskedUrl]) :
    openDoc fullToml (ofBytes (stored url)) = .ok (fullDoc url redisUrl) := by
  rw [stored, ofBytes_toBytes]
  exact openDoc_fullText h

theorem read_open {s : State} (h : s.phase i = .fresh) (hstored : s.content = stored openUrl) :
    twoSteps s (.read i none) = s.enter i (.read openConfig) := by
  have hread := readConfigToml_open (@openDoc_stored openUrl (by simp))
  simp only [step, act, h, seen, hstored, hread, Except.toOption, Option.getD_some]
  rfl

theorem reopen_stored {s : State} (h : s.phase i = .read existing) :
    twoSteps s (.reopen i none) = s.enter i (.reopened existing (ofBytes s.content)) := by
  simp only [step, act, h, seen]

theorem write_stored {s : State} {url : String}
    (h : Pending fullToml smallServer twoBodies s i existing doc (fullDoc url redisUrl)) :
    twoSteps s (.write i none) = State.enter { s with content := stored url } i
      (.written (decide (stored url = s.content))) := by
  obtain ⟨file, hphase, hopen, hset⟩ := h
  have hwrite : toWrite fullToml smallServer twoBodies i existing file =
      .saved (fullText url redisUrl) :=
    (writeConfigToml_saved_iff hopen).mpr ⟨rfl, _, hset, rfl⟩
  simp only [step, act, hphase, hwrite]
  rfl

theorem pending_first {s : State}
    (h : s.phase 0 = .reopened openConfig (ofBytes (stored openUrl))) :
    Pending fullToml smallServer twoBodies s 0 openConfig (fullDoc openUrl redisUrl)
      (fullDoc maskedUrl redisUrl) :=
  ⟨_, h, openDoc_stored (by simp), rfl⟩

theorem pending_second {s : State} {url : String} (hurl : url ∈ [openUrl, secretUrl, maskedUrl])
    (h : s.phase 1 = .reopened openConfig (ofBytes (stored url))) :
    Pending fullToml smallServer twoBodies s 1 openConfig (fullDoc url redisUrl)
      (fullDoc openUrl redisUrl) :=
  ⟨_, h, openDoc_stored hurl, rfl⟩

theorem rendersAt_pending {s : State} {url : String} (fault : Option Fault)
    (hurl : url ∈ [openUrl, secretUrl, maskedUrl])
    (h : Pending fullToml smallServer twoBodies s i existing doc (fullDoc url redisUrl)) :
    RendersAt fullToml smallServer twoBodies s (.write i fault) := by
  intro existing' mid mid' h'
  obtain ⟨file, hphase, hopen, hset⟩ := h
  rw [(h'.eq hphase hopen hset).2.2]
  exact renders_fullDoc hurl

def startOpen : State := ⟨stored openUrl, fun _ => .fresh⟩

/-- The first request has read the file twice. -/
def firstReady (s : State) : State :=
  (s.enter 0 (.read openConfig)).enter 0 (.reopened openConfig (ofBytes (stored openUrl)))

def firstWritten (s : State) : State :=
  State.enter { firstReady s with content := stored maskedUrl } 0
    (.written (decide (stored maskedUrl = (firstReady s).content)))

/-- The steps of the first request, and what comes after. -/
theorem allSteps_first_iff {P : State → Action → Prop} {s : State} {as : List Action}
    (h : s.phase 0 = .fresh) (hstored : s.content = stored openUrl) :
    LabelledRun.AllSteps twoSteps P s (.read 0 none :: .reopen 0 none :: .write 0 none :: as) ↔
      P s (.read 0 none) ∧ P (s.enter 0 (.read openConfig)) (.reopen 0 none) ∧
        P (firstReady s) (.write 0 none) ∧
        LabelledRun.AllSteps twoSteps P (firstWritten s) as := by
  have hcontent : (s.enter 0 (.read openConfig)).content = stored openUrl := hstored
  simp only [LabelledRun.AllSteps]
  rw [read_open h hstored, reopen_stored (enter_phase_self ..), hcontent,
    write_stored (pending_first (enter_phase_self ..))]
  rfl

theorem firstReady_pending (s : State) :
    Pending fullToml smallServer twoBodies (firstReady s) 0 openConfig (fullDoc openUrl redisUrl)
      (fullDoc maskedUrl redisUrl) := pending_first (enter_phase_self ..)

theorem carried_open {f : Field} (h : inBody (twoBodies 0) f = none) :
    carried smallServer openConfig (fullDoc openUrl redisUrl) f =
      f.item (fullDoc openUrl redisUrl) := by
  cases f with
  | databaseUrl => cases h
  | _ => rfl

/-- One request alone keeps what it does not name. -/
theorem atomic_alone :
    LabelledRun.AllSteps twoSteps (Atomic fullToml smallServer twoBodies)
      ⟨stored openUrl, fun _ => .fresh⟩
      [.read 0 none, .reopen 0 none, .write 0 none, .reply 0 none] := by
  refine (atomic_run_iff fullToml smallServer twoBodies (stored openUrl) _ ?_).mpr ?_
  · refine (allSteps_first_iff rfl rfl).mpr ⟨trivial, trivial, ?_, trivial, trivial⟩
    exact rendersAt_pending none (by simp) (firstReady_pending _)
  · refine (allSteps_first_iff rfl rfl).mpr ⟨trivial, trivial, ?_, ?_, trivial⟩
    · intro existing doc doc' hpending
      obtain ⟨file, hphase, hopen, hset⟩ := firstReady_pending startOpen
      obtain ⟨rfl, rfl, rfl⟩ := hpending.eq hphase hopen hset
      refine ⟨fun _ f homitted item hhold => ?_, fun _ _ hcut => by cases hcut⟩
      obtain ⟨doc, hdoc, hitem⟩ := hhold
      have hfull : doc = fullDoc openUrl redisUrl :=
        Except.ok.inj (hdoc.symm.trans (openDoc_stored (by simp)))
      rw [carried_open homitted, ← hfull]
      exact hitem
    · exact fun _ => ⟨rfl, _, @openDoc_stored maskedUrl (by simp)⟩

/-- The second request has read the file before the first one writes. -/
def secondRead : State := startOpen.enter 1 (.read openConfig)

def secondReady : State :=
  (firstWritten secondRead).enter 1 (.reopened openConfig (ofBytes (stored maskedUrl)))

def crossed : List Action :=
  [.read 1 none, .read 0 none, .reopen 0 none, .write 0 none, .reopen 1 none, .write 1 none]

/-- The update of the first request is lost to the second. -/
theorem update_lost :
    ¬ ∀ (toml : TomlEdit) (server : Server) (bodies : ℕ → UpdateConfigBody)
      (content : List UInt8) (as : List Action),
      LabelledRun.AllSteps (step toml server bodies) (RendersAt toml server bodies)
        ⟨content, fun _ => .fresh⟩ as →
      LabelledRun.AllSteps (step toml server bodies) (Atomic toml server bodies)
        ⟨content, fun _ => .fresh⟩ as := by
  intro h
  have hread : twoSteps startOpen (.read 1 none) = secondRead := read_open rfl rfl
  have hfresh : secondRead.phase 0 = .fresh := enter_phase_ne (by decide) ..
  have hphase : (firstWritten secondRead).phase 1 = .read openConfig := rfl
  have hpending : Pending fullToml smallServer twoBodies secondReady 1 openConfig
      (fullDoc maskedUrl redisUrl) (fullDoc openUrl redisUrl) :=
    pending_second (by simp) (enter_phase_self ..)
  have hrun {P : State → Action → Prop} :
      LabelledRun.AllSteps twoSteps P startOpen crossed ↔
        P startOpen (.read 1 none) ∧ P secondRead (.read 0 none) ∧
          P (secondRead.enter 0 (.read openConfig)) (.reopen 0 none) ∧
          P (firstReady secondRead) (.write 0 none) ∧
          P (firstWritten secondRead) (.reopen 1 none) ∧ P secondReady (.write 1 none) ∧ True := by
    rw [crossed, LabelledRun.AllSteps, hread, allSteps_first_iff hfresh rfl, LabelledRun.AllSteps,
      reopen_stored hphase]
    rfl
  have hatomic := (hrun.mp (h fullToml smallServer twoBodies (stored openUrl) crossed
    (hrun.mpr ⟨trivial, trivial, trivial,
      rendersAt_pending none (by simp) (firstReady_pending secondRead), trivial,
      rendersAt_pending none (by simp) hpending, trivial⟩))).2.2.2.2.2.1
  have hset : Holds fullToml .databaseUrl (.string maskedUrl) secondReady.content :=
    ⟨_, @openDoc_stored maskedUrl (by simp), rfl⟩
  obtain ⟨doc, hopen, hitem⟩ := hatomic.1 .databaseUrl rfl _ hset
  have hafter : (step fullToml smallServer twoBodies secondReady (.write 1 none)).content =
      stored openUrl := congrArg State.content (write_stored hpending)
  rw [hafter] at hopen
  have hdoc : doc = fullDoc openUrl redisUrl :=
    Except.ok.inj (hopen.symm.trans (@openDoc_stored openUrl (by simp)))
  rw [hdoc] at hitem
  injection hitem with hitem
  injection hitem with hurl
  exact absurd hurl (by decide +kernel)

end PicHost.UpdateAtomicity
