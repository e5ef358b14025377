import Mathlib.Data.List.AList

/-!
# Trees of files

A path starts at the root or in a directory. `..` leads to the parent, a symbolic link to where it
points, and every name but the last one has to be a directory.
-/

namespace FileTree

/-- The names on the way from the root. -/
abbrev Place := List String

inductive Node
  | file (content : List UInt8)
  | directory
  /-- A symbolic link, with the place it leads to in the end. -/
  | link (target : Place)
deriving DecidableEq

abbrev Tree := AList fun _ : Place => Node

section Paths

variable (tree : Tree)

def follow (place : Place) : Place :=
  match tree.lookup place with
  | some (.link target) => target
  | _ => place

/-- One name of a path. -/
def enter (cur : Place) (name : String) : Option Place :=
  match tree.lookup cur with
  | some .directory =>
    if name = "" ∨ name = "." then some cur
    else if name = ".." then some cur.dropLast
    else some (follow tree (cur ++ [name]))
  | _ => none

def components (path : String) : List String := (path.toList.splitOn '/').map String.ofList

/-- Where `dir.join(path)` leads: an absolute path leaves the directory out. -/
def resolve (dir : Place) (path : String) : Option Place :=
  (components path).foldlM (enter tree) (if ['/'].isPrefixOf path.toList then [] else dir)

/-- What is there, if anything. -/
def nodeAt (dir : Place) (path : String) : Option Node :=
  (resolve tree dir path).bind fun place => tree.lookup place

/-- The names that `read_dir` gives. -/
def names (dir : Place) : List String :=
  tree.keys.filterMap fun place => if place.dropLast = dir then place.getLast? else none

end Paths

/-! ## Writing -/

/-- How a write fails: the file is not opened, or only so many bytes get into it. -/
inductive Fault
  | refused (message : String)
  | cut (written : ℕ) (message : String)
deriving DecidableEq

namespace Fault

/-- What the write leaves in the file, if it is opened. -/
def written : Option Fault → List UInt8 → Option (List UInt8)
  | none, content => some content
  | some (.refused _), _ => none
  | some (.cut n _), content => some (content.take n)

def result : Option Fault → Except String Unit
  | none => .ok ()
  | some (.refused message) => .error message
  | some (.cut _ message) => .error message

def message : Fault → String
  | refused message | cut _ message => message

theorem result_eq_ok_iff {fault : Option Fault} : result fault = .ok () ↔ fault = none := by
  cases fault with
  | none => simp [result]
  | some fault => cases fault <;> simp [result]

end Fault

section Writing

variable (tree : Tree)

/-- A file can be opened for writing where there is one, or none in a directory that exists. -/
def canCreate (place : Place) : Bool :=
  match tree.lookup place with
  | some (.file _) => true
  | some _ => false
  | none => tree.lookup place.dropLast = some .directory

def writeAt (fault : Option Fault) (place : Place) (content : List UInt8) :
    Tree × Except String Unit :=
  if canCreate tree place then
    match Fault.written fault content with
    | some written => (tree.insert place (.file written), Fault.result fault)
    | none => (tree, Fault.result fault)
  else (tree, .error "Is a directory (os error 21)")

/-- `fs::write`. -/
def write (dir : Place) (fault : Option Fault) (path : String) (content : List UInt8) :
    Tree × Except String Unit :=
  match resolve tree dir path with
  | some place => writeAt tree fault place content
  | none => (tree, .error "No such file or directory (os error 2)")

/-- `fs::copy`: the target is emptied when it is opened, also where it is the source. -/
def copy (dir : Place) (fault : Option Fault) (source target : String) :
    Tree × Except String Unit :=
  match resolve tree dir source, resolve tree dir target with
  | some src, some dst =>
    match tree.lookup src with
    | some (.file content) => writeAt tree fault dst (if src = dst then [] else content)
    | some _ =>
      (tree, .error "the source path is neither a regular file nor a symlink to a regular file")
    | none => (tree, .error "No such file or directory (os error 2)")
  | _, _ => (tree, .error "No such file or directory (os error 2)")

end Writing

variable {tree : Tree} {dir place other : Place} {fault : Option Fault} {content : List UInt8}
  {name path : String}

theorem mem_names_iff : name ∈ names tree dir ↔ (tree.lookup (dir ++ [name])).isSome := by
  rw [AList.lookup_isSome, AList.mem_keys, names, List.mem_filterMap]
  constructor
  · rintro ⟨place, hmem, hname⟩
    split at hname
    · rename_i hdir
      rw [← hdir, List.dropLast_append_getLast? name hname]
      exact hmem
    · cases hname
  · exact fun hmem => ⟨dir ++ [name], hmem, by simp⟩

theorem lookup_writeAt_ne (h : other ≠ place) :
    (writeAt tree fault place content).1.lookup other = tree.lookup other := by
  unfold writeAt
  split
  · split
    · exact AList.lookup_insert_ne h
    · rfl
  · rfl

theorem lookup_writeAt_self (h : canCreate tree place = true) {written : List UInt8}
    (hwritten : Fault.written fault content = some written) :
    (writeAt tree fault place content).1.lookup place = some (.file written) := by
  rw [writeAt, if_pos h, hwritten]
  exact AList.lookup_insert tree

theorem writeAt_refused (h : Fault.written fault content = none) :
    (writeAt tree fault place content).1 = tree := by
  unfold writeAt
  rw [h]
  split <;> rfl

theorem writeAt_blocked (h : canCreate tree place = false) :
    (writeAt tree fault place content).1 = tree := by
  rw [writeAt, h]
  rfl

theorem writeAt_result_iff :
    (writeAt tree fault place content).2 = .ok () ↔ canCreate tree place = true ∧ fault = none := by
  rw [← Fault.result_eq_ok_iff, writeAt]
  by_cases h : canCreate tree place = true
  · rw [if_pos h, and_iff_right h]
    split <;> rfl
  · rw [if_neg h]
    exact iff_of_false (fun hok => by cases hok) fun hboth => h hboth.1

/-! ## What writing leaves alone -/

/-- The same directories and links. -/
def SameShape (tree tree' : Tree) : Prop :=
  ∀ place node, (∀ content, node ≠ .file content) →
    (tree'.lookup place = some node ↔ tree.lookup place = some node)

theorem sameShape_writeAt : SameShape tree (writeAt tree fault place content).1 := by
  intro other node hnode
  by_cases hplace : other = place
  · subst hplace
    cases hcreate : canCreate tree other with
    | false => rw [writeAt_blocked hcreate]
    | true =>
      cases hwritten : Fault.written fault content with
      | none => rw [writeAt_refused hwritten]
      | some written =>
        rw [lookup_writeAt_self hcreate hwritten]
        refine iff_of_false (fun h => hnode _ (Option.some.inj h).symm) fun h => ?_
        -- a directory or a link is never opened for writing
        rw [canCreate, h] at hcreate
        cases node with
        | file content => exact hnode content rfl
        | directory => cases hcreate
        | link target => cases hcreate
  · rw [lookup_writeAt_ne hplace]

/-- A place that is no link is where it is. -/
theorem follow_of_not_link (h : ∀ target, tree.lookup place ≠ some (.link target)) :
    follow tree place = place := by
  unfold follow
  split
  · rename_i target htarget
    exact absurd htarget (h target)
  · rfl

theorem SameShape.follow {tree' : Tree} (h : SameShape tree tree') :
    follow tree' = follow tree := by
  funext place
  by_cases hlink : ∃ target, tree.lookup place = some (.link target)
  · obtain ⟨target, hlink⟩ := hlink
    have hlink' := (h place (.link target) fun _ => by simp).mpr hlink
    rw [FileTree.follow, FileTree.follow, hlink, hlink']
  · have hlink' : ¬ ∃ target, tree'.lookup place = some (.link target) := fun htarget =>
      hlink (htarget.imp fun target => (h place (.link target) fun _ => by simp).mp)
    rw [follow_of_not_link (not_exists.mp hlink), follow_of_not_link (not_exists.mp hlink')]

theorem enter_eq (cur : Place) (name : String) :
    enter tree cur name = if tree.lookup cur = some .directory then
      if name = "" ∨ name = "." then some cur
      else if name = ".." then some cur.dropLast
      else some (follow tree (cur ++ [name])) else none := by
  unfold enter
  split
  · rename_i hdir
    rw [if_pos hdir]
  · rename_i hdir
    exact (if_neg fun h => hdir h).symm

/-- Paths lead to the same places. -/
theorem SameShape.resolve {tree' : Tree} (h : SameShape tree tree') :
    resolve tree' = resolve tree := by
  have henter : enter tree' = enter tree := by
    funext cur name
    rw [enter_eq, enter_eq, h.follow]
    congr 1
    exact propext (h cur .directory fun _ => by simp)
  funext dir path
  rw [FileTree.resolve, FileTree.resolve, henter]

/-! ## Names -/

/-- A name of an entry of a directory. -/
def IsName (name : String) : Prop :=
  '/' ∉ name.toList ∧ name ≠ "" ∧ name ≠ "." ∧ name ≠ ".."

instance : DecidablePred IsName := fun _ => inferInstanceAs (Decidable (_ ∧ _ ∧ _ ∧ _))

theorem components_name (h : '/' ∉ name.toList) : components name = [name] := by
  have hsplit : name.toList.splitOnP (· == '/') = [name.toList] :=
    List.splitOnP_eq_singleton fun c hc => beq_false_of_ne fun heq => h (heq ▸ hc)
  rw [components, List.splitOn_eq_splitOnP, hsplit, List.map_singleton, String.ofList_toList]

/-- A name is one step from the directory. -/
theorem resolve_name (h : IsName name) : resolve tree dir name = enter tree dir name := by
  have hrelative : ['/'].isPrefixOf name.toList = false := by
    cases hname : name.toList with
    | nil => rfl
    | cons c rest =>
      have hslash := h.1
      rw [hname] at hslash
      have hc : '/' ≠ c := fun heq => hslash (heq ▸ List.mem_cons_self)
      rw [List.isPrefixOf_cons_cons, beq_false_of_ne hc]
      rfl
  rw [resolve, components_name h.1, hrelative]
  simp only [List.foldlM_cons, List.foldlM_nil, bind_pure]
  rfl

theorem resolve_name_iff (h : IsName name) :
    resolve tree dir name = some place ↔
      tree.lookup dir = some .directory ∧ follow tree (dir ++ [name]) = place := by
  rw [resolve_name h, enter_eq, if_neg (not_or.mpr ⟨h.2.1, h.2.2.1⟩), if_neg h.2.2.2]
  split
  · rename_i hdir
    rw [and_iff_right hdir, Option.some.injEq]
  · rename_i hdir
    exact iff_of_false (fun hplace => by cases hplace) fun hboth => hdir hboth.1

end FileTree
