import PicHost.Lib.TomlDocument

/-!
# The configuration file of the administrator

`read_config_toml` and `write_config_toml` edit `config.toml` in place. The text format is a
parameter.
-/

namespace PicHost.ConfigFile

open TomlDocument

structure SystemConfig where
  databaseUrl : Option String := none
  redisUrl : Option String := none
  jwtSecret : Option String := none
  tokenEncryptionKey : Option String := none
  publicUrl : Option String := none
  defaultBackend : Option String := none
  localBasePath : Option String := none
  i18nLanguage : Option String := none
  i18nLocalesDir : Option String := none
deriving DecidableEq

inductive ConfigError
  | io (message : String)
  | parse (message : String)
  | connection (message : String)
deriving DecidableEq

def ConfigError.message : ConfigError → String
  | .io message => "IO error: " ++ message
  | .parse message => "Parse error: " ++ message
  | .connection message => "Connection error: " ++ message

/-- What is found at the path of the configuration. -/
inductive File
  | missing
  | unreadable (message : String)
  | text (content : String)
deriving DecidableEq

/-- The bytes of a file as `read_to_string` takes them. -/
def ofBytes (content : List UInt8) : File :=
  match String.fromUTF8? ⟨content.toArray⟩ with
  | some text => .text text
  | none => .unreadable "stream did not contain valid UTF-8"

def toBytes (text : String) : List UInt8 := text.toUTF8.data.toList

theorem ofBytes_toBytes (text : String) : ofBytes (toBytes text) = .text text := by
  have hdecode : String.fromUTF8? ⟨(toBytes text).toArray⟩ = some text :=
    dif_pos text.isValidUTF8
  rw [ofBytes, hdecode]

/-- `toml_edit`. -/
structure TomlEdit where
  parse : String → Except String Doc
  print : Doc → String

/-- The document parses again, with the same tables. -/
def TomlEdit.Renders (toml : TomlEdit) (doc : Doc) : Prop :=
  ∃ doc', toml.parse (toml.print doc) = .ok doc' ∧
    ∀ name, Reprinted (doc.lookup name) (doc'.lookup name)

variable (toml : TomlEdit)

def getStr (doc : Doc) (name key : String) : Option String :=
  (doc.value name key).bind Item.asStr

def systemConfig (doc : Doc) : SystemConfig where
  databaseUrl := getStr doc "database" "url"
  redisUrl := getStr doc "redis" "url"
  jwtSecret := getStr doc "auth" "jwt_secret"
  tokenEncryptionKey := none
  publicUrl := getStr doc "server" "public_url"
  defaultBackend := getStr doc "storage" "default_backend"
  localBasePath := getStr doc "storage" "local_base_path"
  i18nLanguage := getStr doc "i18n" "language"
  i18nLocalesDir := getStr doc "i18n" "locales_dir"

def readConfigToml : File → Except ConfigError SystemConfig
  | .missing => .ok {}
  | .unreadable message => .error (.io message)
  | .text content =>
    match toml.parse content with
    | .error message => .error (.parse message)
    | .ok doc => .ok (systemConfig doc)

/-- None where the indexing panics. -/
def setNested (doc : Doc) (name key : String) : Option String → Option Doc
  | some v => doc.setValue name key (.string v)
  | none => some (doc.removeValue name key)

def setAll (config : SystemConfig) (doc : Doc) : Option Doc := do
  let doc ← setNested doc "database" "url" config.databaseUrl
  let doc ← setNested doc "redis" "url" config.redisUrl
  let doc ← setNested doc "server" "public_url" config.publicUrl
  let doc ← setNested doc "storage" "default_backend" config.defaultBackend
  let doc ← setNested doc "storage" "local_base_path" config.localBasePath
  let doc ← setNested doc "i18n" "language" config.i18nLanguage
  setNested doc "i18n" "locales_dir" config.i18nLocalesDir

/-- The document `write_config_toml` starts from. -/
def openDoc : File → Except ConfigError Doc
  | .missing => .ok []
  | .unreadable message => .error (.io message)
  | .text content =>
    match toml.parse content with
    | .error message => .error (.parse message)
    | .ok doc => .ok doc

inductive Written
  | panicked
  | failed (e : ConfigError)
  | saved (content : String)
deriving DecidableEq

/-- `refused` is the error of the write itself, where there is one. -/
def writeConfigToml (refused : Option String) (file : File) (config : SystemConfig) : Written :=
  match openDoc toml file with
  | .error e => .failed e
  | .ok doc =>
    match setAll config doc with
    | none => .panicked
    | some doc' =>
      match refused with
      | some message => .failed (.io message)
      | none => .saved (toml.print doc')

/-! ## The managed keys -/

inductive Field
  | databaseUrl
  | redisUrl
  | publicUrl
  | defaultBackend
  | localBasePath
  | i18nLanguage
  | i18nLocalesDir
deriving DecidableEq

namespace Field

/-- In the order they are written. -/
def all : List Field :=
  [databaseUrl, redisUrl, publicUrl, defaultBackend, localBasePath, i18nLanguage, i18nLocalesDir]

theorem mem_all (f : Field) : f ∈ all := by cases f <;> decide

def path : Field → String × String
  | databaseUrl => ("database", "url")
  | redisUrl => ("redis", "url")
  | publicUrl => ("server", "public_url")
  | defaultBackend => ("storage", "default_backend")
  | localBasePath => ("storage", "local_base_path")
  | i18nLanguage => ("i18n", "language")
  | i18nLocalesDir => ("i18n", "locales_dir")

def value (config : SystemConfig) : Field → Option String
  | databaseUrl => config.databaseUrl
  | redisUrl => config.redisUrl
  | publicUrl => config.publicUrl
  | defaultBackend => config.defaultBackend
  | localBasePath => config.localBasePath
  | i18nLanguage => config.i18nLanguage
  | i18nLocalesDir => config.i18nLocalesDir

theorem path_injective : Function.Injective path := by
  intro f g h
  cases f <;> cases g <;> first | rfl | exact absurd h (by decide)

variable (doc : Doc) (f : Field)

/-- What the document holds at the field's key. -/
def item : Option Item := doc.value f.path.1 f.path.2

def read : Option String := getStr doc f.path.1 f.path.2

def write (v : Option String) : Option Doc := setNested doc f.path.1 f.path.2 v

theorem value_systemConfig : f.value (systemConfig doc) = f.read doc := by cases f <;> rfl

end Field

theorem setAll_eq (config : SystemConfig) (doc : Doc) :
    setAll config doc = Field.all.foldlM (fun doc f => f.write doc (f.value config)) doc := by
  simp only [Field.all, List.foldlM_cons, List.foldlM_nil, bind_pure]
  rfl

/-- Where writing the field and reading it back agree: a value needs a table or a missing section,
and a table written inline must not hold what is to be removed. -/
def Settable (doc : Doc) (f : Field) : Option String → Prop
  | some _ => ∀ item ∈ doc.lookup f.path.1, item.isTable
  | none => ∀ entries, doc.lookup f.path.1 = some (.table .inline entries) → f.read doc = none

variable {doc doc' : Doc} {f g : Field} {v : Option String}

theorem value_write (h : g.write doc v = some doc') {name key : String}
    (hne : g.path ≠ (name, key)) : doc'.value name key = doc.value name key := by
  have hpath : ¬ (g.path.1 = name ∧ g.path.2 = key) := fun hboth =>
    hne (Prod.ext hboth.1 hboth.2)
  cases v with
  | none =>
    rw [← Option.some.inj h]
    exact Doc.value_removeValue_ne hpath
  | some v => rw [Doc.value_setValue h, if_neg hpath]

/-- A section that the field does not name, or that is no table, stays as it is. -/
theorem lookup_write (h : g.write doc v = some doc') {name : String}
    (hname : g.path.1 ≠ name ∨ ∃ item ∈ doc.lookup name, item.isTable = false) :
    doc'.lookup name = doc.lookup name := by
  by_cases hne : g.path.1 = name
  · obtain ⟨item, hitem, htable⟩ := hname.resolve_left (not_not_intro hne)
    rw [← hne, Option.mem_def] at hitem
    cases v with
    | none =>
      rw [← Option.some.inj h, ← hne, Doc.lookup_removeValue_self, hitem, Option.map_some,
        Item.remove_of_not_table htable]
    | some v =>
      have hset := Doc.setValue_isSome_iff.mp (Option.isSome_of_eq_some h) item hitem
      rw [htable] at hset
      cases hset
  · cases v with
    | none =>
      rw [← Option.some.inj h]
      exact Doc.lookup_removeValue_ne hne
    | some v => exact Doc.lookup_setValue_ne h hne

theorem read_write_ne (h : g.write doc v = some doc') (hne : f ≠ g) : f.read doc' = f.read doc :=
  congrArg (Option.bind · Item.asStr)
    (value_write h fun hpath => hne (Field.path_injective hpath).symm)

/-- One field is written and read back exactly where it is settable. -/
theorem write_iff :
    (∃ doc', f.write doc v = some doc' ∧ f.read doc' = v) ↔ Settable doc f v := by
  cases v with
  | some v =>
    rw [Settable, ← @Doc.setValue_isSome_iff doc f.path.1 f.path.2 (.string v),
      Option.isSome_iff_exists]
    refine exists_congr fun doc' => and_iff_left_of_imp fun h => ?_
    rw [Field.read, getStr, Doc.value_setValue h, if_pos ⟨rfl, rfl⟩]
    rfl
  | none =>
    have hread (doc : Doc) : f.read doc = (doc.value f.path.1 f.path.2).bind Item.asStr := rfl
    rw [Settable]
    by_cases hinline : ∃ entries, doc.lookup f.path.1 = some (.table .inline entries)
    · obtain ⟨entries, hinline⟩ := hinline
      have hkept := @Doc.value_removeValue_inline doc f.path.1 f.path.2 entries hinline f.path.2
      constructor
      · rintro ⟨doc', hwrite, hnone⟩ - -
        rw [← Option.some.inj hwrite, hread, hkept] at hnone
        exact hnone
      · intro h
        refine ⟨_, rfl, ?_⟩
        rw [hread, hkept]
        exact h entries hinline
    · refine iff_of_true ⟨_, rfl, ?_⟩ fun entries h => absurd ⟨entries, h⟩ hinline
      rw [hread, Doc.value_removeValue_self fun entries h => hinline ⟨entries, h⟩]
      rfl

/-- Writing one field leaves the others as settable as they were. -/
theorem settable_write {w : Option String} (h : g.write doc w = some doc') (hne : f ≠ g) :
    Settable doc' f v ↔ Settable doc f v := by
  by_cases hname : g.path.1 = f.path.1
  · have hread := read_write_ne h hne
    cases w with
    | some w =>
      obtain ⟨kind, entries, hafter, hvalue, hbefore⟩ := Doc.lookup_setValue h
      rw [hname] at hafter hvalue hbefore
      cases v with
      | some v =>
        rw [Settable, Settable, hafter]
        rcases hbefore with hbefore | ⟨hbefore, -, -⟩ <;> rw [hbefore] <;> simp [Item.isTable]
      | none =>
        rw [Settable, Settable, hafter, hread]
        rcases hbefore with hbefore | ⟨hbefore, rfl, rfl⟩
        · rw [hbefore]
          simp
        · have hnone : f.read doc = none := by
            rw [Field.read, getStr, Doc.value, hbefore]
            rfl
          simp [hnone]
    | none =>
      have hlookup : doc'.lookup f.path.1 =
          (doc.lookup f.path.1).map (Item.remove g.path.2) := by
        rw [← Option.some.inj h, ← hname]
        exact Doc.lookup_removeValue_self
      cases v with
      | some v =>
        rw [Settable, Settable, hlookup]
        cases doc.lookup f.path.1 with
        | none => simp
        | some item => simp [Item.isTable_remove]
      | none =>
        rw [Settable, Settable, hlookup, hread]
        cases doc.lookup f.path.1 with
        | none => simp
        | some item => simp only [Option.map_some, Option.some.injEq, Item.remove_eq_inline_iff]
  · have hlookup := lookup_write h (.inl hname)
    cases v with
    | some v => rw [Settable, Settable, hlookup]
    | none => rw [Settable, Settable, hlookup, read_write_ne h hne]

/-- Writing some of the fields changes no key but theirs. -/
theorem foldlM_frame {fs : List Field} {val : Field → Option String}
    (h : fs.foldlM (fun doc f => f.write doc (val f)) doc = some doc') :
    (∀ name key, (∀ f ∈ fs, f.path ≠ (name, key)) → doc'.value name key = doc.value name key) ∧
      ∀ name, ((∀ f ∈ fs, f.path.1 ≠ name) ∨ ∃ item ∈ doc.lookup name, item.isTable = false) →
        doc'.lookup name = doc.lookup name := by
  induction fs generalizing doc with
  | nil =>
    rw [← Option.some.inj h]
    exact ⟨fun _ _ _ => rfl, fun _ _ => rfl⟩
  | cons g fs ih =>
    obtain ⟨mid, hmid, hrest⟩ := Option.bind_eq_some_iff.mp (List.foldlM_cons.symm.trans h)
    obtain ⟨hvalue, hlookup⟩ := ih hrest
    constructor
    · intro name key hne
      obtain ⟨hg, hfs⟩ := List.forall_mem_cons.mp hne
      rw [hvalue name key hfs, value_write hmid hg]
    · rintro name (hne | htable)
      · obtain ⟨hg, hfs⟩ := List.forall_mem_cons.mp hne
        rw [hlookup name (.inl hfs), lookup_write hmid (.inl hg)]
      · have hsame := lookup_write hmid (.inr htable)
        rw [hlookup name (.inr (hsame ▸ htable)), hsame]

/-- Fields written one after the other are all read back exactly where each was settable. -/
theorem foldlM_iff {fs : List Field} (hfs : fs.Nodup) (val : Field → Option String) :
    (∃ doc', fs.foldlM (fun doc f => f.write doc (val f)) doc = some doc' ∧
      ∀ f ∈ fs, f.read doc' = val f) ↔ ∀ f ∈ fs, Settable doc f (val f) := by
  induction fs generalizing doc with
  | nil => exact iff_of_true ⟨doc, rfl, by simp⟩ (by simp)
  | cons g fs ih =>
    obtain ⟨hg, hnodup⟩ := List.nodup_cons.mp hfs
    have hread {mid doc' : Doc}
        (h : fs.foldlM (fun doc f => f.write doc (val f)) mid = some doc') :
        g.read doc' = g.read mid :=
      congrArg (Option.bind · Item.asStr) ((foldlM_frame h).1 _ _ fun f hf hpath =>
        hg (Field.path_injective hpath ▸ hf))
    constructor
    · rintro ⟨doc', h, hback⟩
      obtain ⟨mid, hmid, hrest⟩ := Option.bind_eq_some_iff.mp (List.foldlM_cons.symm.trans h)
      obtain ⟨hgback, hfsback⟩ := List.forall_mem_cons.mp hback
      refine List.forall_mem_cons.mpr ⟨write_iff.mp ⟨mid, hmid, (hread hrest).symm.trans hgback⟩,
        fun f hf => ?_⟩
      have hne : f ≠ g := fun heq => hg (heq ▸ hf)
      exact (settable_write hmid hne).mp ((ih hnodup).mp ⟨doc', hrest, hfsback⟩ f hf)
    · intro h
      obtain ⟨hgset, hfsset⟩ := List.forall_mem_cons.mp h
      obtain ⟨mid, hmid, hgback⟩ := write_iff.mpr hgset
      obtain ⟨doc', hrest, hfsback⟩ := (@ih mid hnodup).mpr fun f hf =>
        (settable_write hmid fun heq => hg (heq ▸ hf)).mpr (hfsset f hf)
      refine ⟨doc', ?_, List.forall_mem_cons.mpr ⟨(hread hrest).trans hgback, hfsback⟩⟩
      rw [List.foldlM_cons, hmid]
      exact hrest

/-- The whole write at once. -/
theorem setAll_iff (config : SystemConfig) :
    (∃ doc', setAll config doc = some doc' ∧ ∀ f : Field, f.read doc' = f.value config) ↔
      ∀ f : Field, Settable doc f (f.value config) := by
  have h := @foldlM_iff doc Field.all (by decide) fun f => f.value config
  simp only [Field.mem_all, forall_const, ← setAll_eq] at h
  exact h

/-- A field that was set holds its value in the end. -/
theorem foldlM_item {fs : List Field} (hfs : fs.Nodup) {val : Field → Option String}
    (h : fs.foldlM (fun doc f => f.write doc (val f)) doc = some doc') (hf : f ∈ fs) {v : String}
    (hv : val f = some v) : f.item doc' = some (.string v) := by
  induction fs generalizing doc with
  | nil => cases hf
  | cons g fs ih =>
    obtain ⟨hg, hnodup⟩ := List.nodup_cons.mp hfs
    obtain ⟨mid, hmid, hrest⟩ := Option.bind_eq_some_iff.mp (List.foldlM_cons.symm.trans h)
    rcases List.mem_cons.mp hf with rfl | hfs
    · rw [hv] at hmid
      have hset : f.item mid = some (.string v) := by
        rw [Field.item, Doc.value_setValue hmid, if_pos ⟨rfl, rfl⟩]
      rw [← hset]
      exact (foldlM_frame hrest).1 _ _ fun g' hg' hpath => hg (Field.path_injective hpath ▸ hg')
    · exact ih hnodup hrest hfs

theorem setAll_item {config : SystemConfig} (h : setAll config doc = some doc') {v : String}
    (hv : f.value config = some v) : f.item doc' = some (.string v) :=
  foldlM_item (by decide) ((setAll_eq config doc).symm.trans h) f.mem_all hv

/-- What a field holds that is to be removed: nothing, unless its table is written inline. -/
def leftOver (doc : Doc) (f : Field) : Option Item :=
  match doc.lookup f.path.1 with
  | some (.table .inline _) => f.item doc
  | _ => none

theorem leftOver_of_inline {entries : List (String × Item)}
    (h : doc.lookup f.path.1 = some (.table .inline entries)) : leftOver doc f = f.item doc := by
  rw [leftOver, h]

theorem leftOver_of_not_inline
    (h : ∀ entries, doc.lookup f.path.1 ≠ some (.table .inline entries)) :
    leftOver doc f = none := by
  unfold leftOver
  split
  · rename_i entries hinline
    exact absurd hinline (h entries)
  · rfl

theorem item_write_none (h : f.write doc none = some doc') : f.item doc' = leftOver doc f := by
  rw [← Option.some.inj h]
  by_cases hinline : ∃ entries, doc.lookup f.path.1 = some (.table .inline entries)
  · obtain ⟨entries, hinline⟩ := hinline
    rw [leftOver_of_inline hinline]
    exact Doc.value_removeValue_inline hinline _
  · rw [leftOver_of_not_inline (not_exists.mp hinline)]
    exact Doc.value_removeValue_self (not_exists.mp hinline)

/-- Writing one field leaves what another one would leave. -/
theorem leftOver_write (h : g.write doc v = some doc') (hne : f ≠ g) :
    leftOver doc' f = leftOver doc f := by
  have hitem : f.item doc' = f.item doc :=
    value_write h fun hpath => hne (Field.path_injective hpath).symm
  by_cases hname : g.path.1 = f.path.1
  · cases v with
    | some v =>
      obtain ⟨kind, entries, hafter, -, hbefore⟩ := Doc.lookup_setValue h
      rw [hname] at hafter hbefore
      rcases hbefore with hbefore | ⟨hmissing, rfl, -⟩
      · rw [leftOver, leftOver, hafter, hbefore, hitem]
        cases kind <;> rfl
      · -- the section is new, and the field was not there
        rw [leftOver_of_inline hafter, hitem, leftOver, hmissing, Field.item, Doc.value, hmissing]
        rfl
    | none =>
      have hlookup : doc'.lookup f.path.1 = (doc.lookup f.path.1).map (Item.remove g.path.2) := by
        rw [← Option.some.inj h, ← hname]
        exact Doc.lookup_removeValue_self
      by_cases hinline : ∃ entries, doc.lookup f.path.1 = some (.table .inline entries)
      · obtain ⟨entries, hinline⟩ := hinline
        have hinline' : doc'.lookup f.path.1 = some (.table .inline entries) := by
          rw [hlookup, hinline]
          rfl
        rw [leftOver_of_inline hinline, leftOver_of_inline hinline', hitem]
      · rw [leftOver_of_not_inline (not_exists.mp hinline)]
        refine leftOver_of_not_inline fun entries hinline' => hinline ⟨entries, ?_⟩
        rw [hlookup, Option.map_eq_some_iff] at hinline'
        obtain ⟨item, hbefore, hremove⟩ := hinline'
        rw [hbefore, (Item.remove_eq_inline_iff ..).mp hremove]
  · rw [leftOver, leftOver, lookup_write h (.inl hname), hitem]

/-- What a field that was not set holds in the end. -/
theorem foldlM_item_none {fs : List Field} (hfs : fs.Nodup) {val : Field → Option String}
    (h : fs.foldlM (fun doc f => f.write doc (val f)) doc = some doc') (hf : f ∈ fs)
    (hv : val f = none) : f.item doc' = leftOver doc f := by
  induction fs generalizing doc with
  | nil => cases hf
  | cons g fs ih =>
    obtain ⟨hg, hnodup⟩ := List.nodup_cons.mp hfs
    obtain ⟨mid, hmid, hrest⟩ := Option.bind_eq_some_iff.mp (List.foldlM_cons.symm.trans h)
    rcases List.mem_cons.mp hf with rfl | hmem
    · rw [hv] at hmid
      rw [← item_write_none hmid]
      exact (foldlM_frame hrest).1 _ _ fun g' hg' hpath => hg (Field.path_injective hpath ▸ hg')
    · rw [ih hnodup hrest hmem]
      exact leftOver_write hmid fun heq => hg (heq ▸ hmem)

theorem setAll_item_none {config : SystemConfig} (h : setAll config doc = some doc')
    (hv : f.value config = none) : f.item doc' = leftOver doc f :=
  foldlM_item_none (by decide) ((setAll_eq config doc).symm.trans h) f.mem_all hv

theorem foldlM_isSome_iff {fs : List Field} (hfs : fs.Nodup) (val : Field → Option String) :
    (fs.foldlM (fun doc (f : Field) => f.write doc (val f)) doc).isSome ↔
      ∀ f ∈ fs, (val f).isSome → ∀ item ∈ doc.lookup f.path.1, item.isTable := by
  induction fs generalizing doc with
  | nil => exact iff_of_true rfl (by simp)
  | cons g fs ih =>
    obtain ⟨hg, hnodup⟩ := List.nodup_cons.mp hfs
    have hwrite : (g.write doc (val g)).isSome ↔
        ((val g).isSome → ∀ item ∈ doc.lookup g.path.1, item.isTable) := by
      cases val g with
      | none => exact iff_of_true rfl fun h => by cases h
      | some v => exact Doc.setValue_isSome_iff.trans ⟨fun h _ => h, fun h => h rfl⟩
    rw [List.foldlM_cons, List.forall_mem_cons, ← hwrite]
    cases hmid : g.write doc (val g) with
    | none => exact iff_of_false (by simp) fun h => by cases h.1
    | some mid =>
      rw [and_iff_right Option.isSome_some, Option.bind_eq_bind, Option.bind_some, ih hnodup]
      refine forall₂_congr fun f hf => imp_congr_right fun _ => ?_
      exact settable_write (v := some "") hmid fun heq => hg (heq ▸ hf)

/-- The write panics exactly when a value is to go to a section that is no table. -/
theorem setAll_isSome_iff (config : SystemConfig) :
    (setAll config doc).isSome ↔
      ∀ f : Field, (f.value config).isSome → ∀ item ∈ doc.lookup f.path.1, item.isTable := by
  rw [setAll_eq, foldlM_isSome_iff (by decide)]
  exact forall_congr' fun f => forall_prop_of_true f.mem_all

/-! ## Writing the file and reading it back -/

/-- What the writer does not manage: the other keys, the other sections, and a section that is no
table. -/
def Kept (doc doc' : Doc) : Prop :=
  (∀ name key, (∀ f : Field, f.path ≠ (name, key)) → doc'.value name key = doc.value name key) ∧
    ∀ name, ((∀ f : Field, f.path.1 ≠ name) ∨ ∃ item ∈ doc.lookup name, item.isTable = false) →
      (doc'.lookup name).map Item.content = (doc.lookup name).map Item.content

/-- The file is written, reads back as it was written, and keeps the rest. -/
def RoundTrips (file : File) (doc : Doc) (config : SystemConfig) : Prop :=
  ∃ content, writeConfigToml toml none file config = .saved content ∧
    (∃ back, readConfigToml toml (.text content) = .ok back ∧
      ∀ f : Field, f.value back = f.value config) ∧
    ∃ doc', toml.parse content = .ok doc' ∧ Kept doc doc'

variable {toml}

theorem writeConfigToml_saved_iff {refused : Option String} {file : File} {config : SystemConfig}
    (hopen : openDoc toml file = .ok doc) {content : String} :
    writeConfigToml toml refused file config = .saved content ↔
      refused = none ∧ ∃ doc', setAll config doc = some doc' ∧ toml.print doc' = content := by
  rw [writeConfigToml, hopen]
  cases hset : setAll config doc with
  | none => simp [hset]
  | some doc' => cases refused <;> simp [hset]

theorem setAll_frame {config : SystemConfig} (h : setAll config doc = some doc') :
    (∀ name key, (∀ f : Field, f.path ≠ (name, key)) → doc'.value name key = doc.value name key) ∧
      ∀ name, ((∀ f : Field, f.path.1 ≠ name) ∨ ∃ item ∈ doc.lookup name, item.isTable = false) →
        doc'.lookup name = doc.lookup name := by
  obtain ⟨hvalue, hlookup⟩ := foldlM_frame ((setAll_eq config doc).symm.trans h)
  exact ⟨fun name key hne => hvalue name key fun f _ => hne f,
    fun name hname => hlookup name (hname.imp_left fun hne f _ => hne f)⟩

/-- A rendered document holds the same values. -/
theorem value_rendered {shown : Doc}
    (h : ∀ name, Reprinted (doc.lookup name) (shown.lookup name)) (name key : String) :
    shown.value name key = doc.value name key :=
  (h name).get key

/-- The file reads back as written and keeps everything else exactly when every value to set has a
table or a missing section to go to and no value to remove stands in a table written inline. -/
theorem round_trip_iff {file : File} (hopen : openDoc toml file = .ok doc)
    (hhidden : ∀ name, doc.lookup name ≠ some (.table .hidden []))
    (config : SystemConfig) (hrender : ∀ doc', setAll config doc = some doc' → toml.Renders doc') :
    RoundTrips toml file doc config ↔ ∀ f : Field, Settable doc f (f.value config) := by
  rw [← setAll_iff]
  constructor
  · rintro ⟨content, hsaved, ⟨back, hread, hback⟩, -⟩
    obtain ⟨-, doc', hset, rfl⟩ := (writeConfigToml_saved_iff hopen).mp hsaved
    obtain ⟨shown, hparse, hshown⟩ := hrender doc' hset
    refine ⟨doc', hset, fun f => ?_⟩
    rw [readConfigToml, hparse] at hread
    rw [← hback f, ← Except.ok.inj hread, f.value_systemConfig]
    exact congrArg (Option.bind · Item.asStr) (value_rendered hshown ..).symm
  · rintro ⟨doc', hset, hback⟩
    obtain ⟨shown, hparse, hshown⟩ := hrender doc' hset
    refine ⟨toml.print doc', (writeConfigToml_saved_iff hopen).mpr ⟨rfl, doc', hset, rfl⟩,
      ⟨systemConfig shown, ?_, fun f => ?_⟩, shown, hparse, ?_⟩
    · rw [readConfigToml, hparse]
    · rw [f.value_systemConfig, ← hback f]
      exact congrArg (Option.bind · Item.asStr) (value_rendered hshown ..)
    · obtain ⟨hvalue, hlookup⟩ := setAll_frame hset
      refine ⟨fun name key hne => (value_rendered hshown name key).trans (hvalue name key hne),
        fun name hname => ?_⟩
      have hsame := hlookup name hname
      rw [(hshown name).content (hsame ▸ hhidden name), hsame]

/-! ## One key, in a table with a header and in a table written inline -/

def inlineDoc : Doc := [("database", .table .inline [("url", .string "postgres://u:p@h/d")])]

def inlineText : String := "database = \x7b url = \"postgres://u:p@h/d\" \x7d\n"

def headerDoc : Doc := [("database", .table .header [("url", .string "postgres://u:p@h/d")])]

def headerText : String := "[database]\nurl = \"postgres://u:p@h/d\"\n"

def emptiedDoc : Doc := [("database", .table .header [])]

def emptiedText : String := "[database]\n"

/-- `toml_edit` on the three documents. -/
def oneKeyToml : TomlEdit where
  parse content :=
    match [(inlineText, inlineDoc), (headerText, headerDoc), (emptiedText, emptiedDoc)].lookup
      content with
    | some doc => .ok doc
    | none => .error "another text"
  print doc :=
    match doc.lookup "database" with
    | some (.table .inline _) => inlineText
    | some (.table _ (_ :: _)) => headerText
    | _ => emptiedText

theorem oneKey_ne {kind kind' : Kind} (h : kind ≠ kind') (entries entries' : List (String × Item))
    (name : String) :
    List.lookup name [("database", Item.table kind entries)] ≠ some (.table kind' entries') := by
  rw [lookup_cons]
  split
  · simp [h]
  · simp

/-- The key of a table with a header is removed. -/
theorem round_trip_header : RoundTrips oneKeyToml (.text headerText) headerDoc {} := by
  refine (round_trip_iff rfl (oneKey_ne (by decide) _ _) {} fun doc' hdoc => ?_).mpr fun f => ?_
  · rw [← Option.some.inj hdoc]
    exact ⟨emptiedDoc, rfl, fun _ => .same _⟩
  · have hnone : f.value {} = none := by cases f <;> rfl
    rw [hnone]
    exact fun entries h => absurd h (oneKey_ne (by decide) _ _ _)

/-- The key of a table written inline is not. -/
theorem inline_not_removed :
    ¬ ∀ (toml : TomlEdit) (file : File) (doc : Doc) (config : SystemConfig),
      openDoc toml file = .ok doc → (∀ name, doc.lookup name ≠ some (.table .hidden [])) →
      (∀ doc', setAll config doc = some doc' → toml.Renders doc') →
      RoundTrips toml file doc config := by
  intro h
  obtain ⟨content, hsaved, ⟨back, hread, hback⟩, -⟩ :=
    h oneKeyToml (.text inlineText) inlineDoc {} rfl (oneKey_ne (by decide) _ _) fun doc' hdoc => by
      rw [← Option.some.inj hdoc]
      exact ⟨inlineDoc, rfl, fun _ => .same _⟩
  have hcontent : content = inlineText := (Written.saved.inj hsaved).symm
  rw [hcontent] at hread
  have hurl := hback .databaseUrl
  rw [← Except.ok.inj hread] at hurl
  exact absurd hurl (by decide)

end PicHost.ConfigFile
