import PicHost.Lib.TokenText

/-!
# Messages and their arguments

The messages of the locales and of their overrides are one map. A placeholder is an opening and a
closing brace.
-/

namespace PicHost

open TokenText

inductive Language
  | en
  | zhCN
deriving DecidableEq

structure I18n where
  messages : Language → Option (String → Option String)

namespace I18n

def lookup (i18n : I18n) (locale : Language) (key : String) : Option String :=
  (i18n.messages locale).bind fun messages => messages key

def t (i18n : I18n) (locale : Language) (key : String) : String :=
  ((i18n.lookup locale key).or (i18n.lookup .en key)).getD key

/-- `str::replacen` of a placeholder, once. -/
def replacen (msg a : String) : String :=
  String.ofList (replaceFirst '\x7b' '\x7d' a.toList msg.toList)

def tArgs (i18n : I18n) (locale : Language) (key : String) (args : List String) : String :=
  args.foldl replacen (i18n.t locale key)

/-- The `error` of an envelope. -/
def envelopeError (i18n : I18n) (locale : Language) (key : String) (args : List String) : String :=
  if args = [] then i18n.t locale key else i18n.tArgs locale key args

/-- The template between its placeholders. -/
def templatePieces (template : String) : List (List Char) :=
  pieces '\x7b' '\x7d' template.toList

def placeholders (template : String) : ℕ := (templatePieces template).length - 1

/-- The template with the arguments in the places of its placeholders. -/
def positional (template : String) (args : List String) : String :=
  String.ofList (fill '\x7b' '\x7d' (templatePieces template) (args.map String.toList))

/-- The earlier arguments make a placeholder before the last of the template. -/
def MakesPlaceholder (template : String) (earlier : List String) : Prop :=
  HasToken '\x7b' '\x7d'
    (beforeLast '\x7b' '\x7d' (templatePieces template) (earlier.map String.toList))

/-- An envelope does not pass over arguments. -/
theorem envelopeError_eq (i18n : I18n) (locale : Language) (key : String) (args : List String) :
    i18n.envelopeError locale key args = i18n.tArgs locale key args := by
  unfold envelopeError
  split
  · rename_i hargs
    rw [hargs]
    rfl
  · rfl

theorem toList_tArgs (i18n : I18n) (locale : Language) (key : String) (args : List String) :
    (i18n.tArgs locale key args).toList =
      replaceAll '\x7b' '\x7d' (i18n.t locale key).toList (args.map String.toList) := by
  rw [tArgs]
  generalize i18n.t locale key = msg
  induction args generalizing msg with
  | nil => rfl
  | cons a args ih =>
    rw [List.foldl_cons, ih, replacen, String.toList_ofList]
    rfl

theorem tArgs_eq_iff (i18n : I18n) (locale : Language) (key : String) (args : List String) :
    i18n.tArgs locale key args = positional (i18n.t locale key) args ↔
      replaceAll '\x7b' '\x7d' (i18n.t locale key).toList (args.map String.toList) =
        fill '\x7b' '\x7d' (templatePieces (i18n.t locale key)) (args.map String.toList) := by
  rw [← toList_tArgs, ← String.toList_inj, positional, String.toList_ofList]

/-- Whatever the last argument is, the arguments come to their places exactly if the earlier ones
make no placeholder before the last. -/
theorem tArgs_positional_iff (i18n : I18n) (locale : Language) (key : String)
    {earlier : List String} (h : earlier.length = placeholders (i18n.t locale key) - 1) :
    (∀ args : List String, args.length = placeholders (i18n.t locale key) →
        args.dropLast = earlier →
        i18n.tArgs locale key args = positional (i18n.t locale key) args) ↔
      ¬ MakesPlaceholder (i18n.t locale key) earlier := by
  have hbraces : '\x7b' ≠ '\x7d' := by decide
  have hearlier : (earlier.map String.toList).length =
      (pieces '\x7b' '\x7d' (i18n.t locale key).toList).length - 1 - 1 := by
    rw [List.length_map]
    exact h
  rw [MakesPlaceholder, templatePieces, ← replaceAll_eq_fill_iff hbraces hearlier]
  constructor
  · -- Every list of characters is an argument.
    intro hall as has hlast
    have hback : (as.map String.ofList).map String.toList = as := by
      rw [List.map_map]
      exact List.map_id'' (fun _ => String.toList_ofList) as
    have hargs := (tArgs_eq_iff i18n locale key (as.map String.ofList)).mp
      (hall (as.map String.ofList) (by rw [List.length_map]; exact has) ?_)
    · rwa [hback] at hargs
    · apply List.map_injective_iff.mpr fun s t h => String.toList_inj.mp h
      rw [List.map_dropLast, hback]
      exact hlast
  · intro hall args hargs hlast
    refine (tArgs_eq_iff i18n locale key args).mpr (hall _ ?_ ?_)
    · rw [List.length_map]
      exact hargs
    · rw [← List.map_dropLast, hlast]

/-- The message for a download that fails. -/
def serverError : I18n where
  messages locale := if locale = .en then some fun key =>
    if key = "url.server_error" then some "remote server returned \x7b\x7d \x7b\x7d" else none
  else none

theorem tArgs_status : serverError.tArgs .en "url.server_error" ["503", "\x7b\x7d"] =
    positional (serverError.t .en "url.server_error") ["503", "\x7b\x7d"] :=
  (@tArgs_positional_iff serverError .en "url.server_error" ["503"] (by decide)).mpr
    (by rw [MakesPlaceholder, HasToken]; decide) _ (by decide) rfl

/-- The second argument comes into the first. -/
theorem argument_captured : ¬ ∀ (i18n : I18n) (locale : Language) (key : String)
    (args : List String), args.length = placeholders (i18n.t locale key) →
    i18n.tArgs locale key args = positional (i18n.t locale key) args := by
  intro h
  have hargs := h serverError .en "url.server_error" ["\x7b\x7d", "busy"] (by decide)
  revert hargs
  decide

end I18n

end PicHost
