import Mathlib.Data.List.TakeWhile
import ProxyConsole.Client.Operation

/-!
# Names given by a user

What is left of a text without the blanks around it.  A mode or a log level is recognised exactly if
this is its name, letters of either case being the same, and a text is accepted exactly if anything
is left at all.
-/

set_option autoImplicit false

namespace ProxyConsole

namespace Text

/-- A text is a core with nothing but blanks around it. -/
def Surrounds (text core : List Char) : Prop :=
  ∃ before after, text = before ++ core ++ after ∧
    (∀ c ∈ before, isBlank c = true) ∧ ∀ c ∈ after, isBlank c = true

/-- Something of a text is not blank. -/
def Shows (text : String) : Prop :=
  ∃ c ∈ text.toList, isBlank c = false

/-- A text is a name in letters of either case, with nothing but blanks around it. -/
def Spells (text name : String) : Prop :=
  ∃ core, Surrounds text.toList core ∧ core.map Char.toLower = name.toList

theorem surrounds_trimBy (text : List Char) : Surrounds text (trimBy isBlank text) := by
  have front := List.takeWhile_append_dropWhile (p := isBlank) (l := text)
  have back := congrArg List.reverse
    (List.takeWhile_append_dropWhile (p := isBlank) (l := (text.dropWhile isBlank).reverse))
  rw [List.reverse_append, List.reverse_reverse] at back
  refine ⟨text.takeWhile isBlank, ((text.dropWhile isBlank).reverse.takeWhile isBlank).reverse,
    ?_, ?_, ?_⟩
  · rw [List.append_assoc, trimBy, back, front]
  · exact fun c member => List.mem_takeWhile_imp member
  · intro c member
    exact List.mem_takeWhile_imp (List.mem_reverse.mp member)

theorem dropWhile_shown {core : List Char} (shown : ∀ c ∈ core, isBlank c = false) :
    core.dropWhile isBlank = core := by
  cases core with
  | nil => rfl
  | cons c rest => exact List.dropWhile_cons_of_neg (by simp [shown c])

theorem trimBy_of_surrounds {text core : List Char} (surrounds : Surrounds text core)
    (shown : ∀ c ∈ core, isBlank c = false) : trimBy isBlank text = core := by
  obtain ⟨before, after, rfl, blank, blank'⟩ := surrounds
  have front : (before ++ core ++ after).dropWhile isBlank = (core ++ after).dropWhile isBlank := by
    rw [List.append_assoc, List.dropWhile_append_of_pos blank]
  have ended : after.dropWhile isBlank = [] := List.dropWhile_eq_nil_iff.mpr blank'
  rw [trimBy, front]
  cases core with
  | nil => simp [ended]
  | cons c rest =>
    have stays : (c :: rest ++ after).dropWhile isBlank = c :: rest ++ after :=
      List.dropWhile_cons_of_neg (by simp [shown c])
    have shown' : ∀ d ∈ (c :: rest).reverse, isBlank d = false :=
      fun d member => shown d (List.mem_reverse.mp member)
    rw [stays, List.reverse_append,
      List.dropWhile_append_of_pos fun d member => blank' d (List.mem_reverse.mp member),
      dropWhile_shown shown', List.reverse_reverse]

theorem trimBy_eq_nil_iff {text : List Char} :
    trimBy isBlank text = [] ↔ ∀ c ∈ text, isBlank c = true := by
  constructor
  · intro nothing c member
    obtain ⟨before, after, split, blank, blank'⟩ := surrounds_trimBy text
    rw [nothing] at split
    rw [split] at member
    rcases List.mem_append.mp member with first | last
    · rcases List.mem_append.mp first with first | middle
      · exact blank c first
      · cases middle
    · exact blank' c last
  · intro blank
    exact trimBy_of_surrounds ⟨text, [], by simp, blank, by simp⟩ (by simp)

theorem isEmpty_trim {text : String} : (trim text).isEmpty = false ↔ Shows text := by
  have empty : (trim text).isEmpty = true ↔ trimBy isBlank text.toList = [] := by
    rw [trim, String.isEmpty_iff, ← String.toList_inj]
    simp
  rw [← Bool.not_eq_true, empty, trimBy_eq_nil_iff, Shows]
  simp

theorem toLower_of_isBlank {c : Char} (blank : isBlank c = true) : c.toLower = c := by
  unfold Char.toLower
  split
  · rename_i upper
    have low : 65 ≤ c.toNat := upper.1
    have high : c.toNat ≤ 90 := upper.2
    simp [isBlank] at blank
    omega
  · rfl

theorem foldName_eq_iff {text name : String} (shown : ∀ c ∈ name.toList, isBlank c = false) :
    foldName text = name ↔ Spells text name := by
  have spelled : foldName text = name ↔
      (trimBy isBlank text.toList).map Char.toLower = name.toList := by
    rw [foldName, lowerAscii, trim, ← String.toList_inj]
    simp
  rw [spelled]
  constructor
  · intro same
    exact ⟨_, surrounds_trimBy _, same⟩
  · rintro ⟨core, surrounds, same⟩
    have shown' : ∀ c ∈ core, isBlank c = false := by
      intro c member
      by_contra blank
      rw [Bool.not_eq_false] at blank
      have listed : c.toLower ∈ name.toList := same ▸ List.mem_map_of_mem member
      rw [toLower_of_isBlank blank] at listed
      rw [shown c listed] at blank
      cases blank
    rw [trimBy_of_surrounds surrounds shown', same]

theorem spells_self {name : String} (small : name.toList.map Char.toLower = name.toList) :
    Spells name name :=
  ⟨name.toList, ⟨[], [], by simp, nofun, nofun⟩, small⟩

end Text

open Text

theorem Mode.parse_ok_iff {text : String} {m : Mode} :
    Mode.parse text = .ok m ↔ Spells text m.name := by
  rw [← foldName_eq_iff (by cases m <;> simp [Mode.name, isBlank])]
  unfold parse
  constructor
  · intro parsed
    split at parsed
    · rename_i found
      cases parsed
      simpa [eq_comm] using List.find?_some found
    · cases parsed
  · intro folded
    rw [folded]
    cases m <;> rfl

theorem LogLevel.parse_ok_iff {text : String} {l : LogLevel} :
    LogLevel.parse text = .ok l ↔ Spells text l.name := by
  rw [← foldName_eq_iff (by cases l <;> simp [LogLevel.name, isBlank])]
  unfold parse
  constructor
  · intro parsed
    split at parsed
    · rename_i found
      cases parsed
      simpa [eq_comm] using List.find?_some found
    · cases parsed
  · intro folded
    rw [folded]
    cases l <;> rfl

theorem Operation.requireText_cases (what text : String) :
    (Shows text ∧ Operation.requireText what text = .ok (trim text)) ∨
      (¬ Shows text ∧ Operation.requireText what text =
        .error (.validation (what ++ " must not be empty"))) := by
  unfold requireText
  cases empty : (trim text).isEmpty with
  | false => exact Or.inl ⟨isEmpty_trim.mp empty, by simp [empty]⟩
  | true =>
    refine Or.inr ⟨?_, by simp [empty]⟩
    intro shows
    rw [isEmpty_trim.mpr shows] at empty
    cases empty

end ProxyConsole
