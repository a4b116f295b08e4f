import Mathlib.Data.List.Perm.Subperm
import ProxyConsole.Proofs.Console.Documents

/-!
# Listings of the rules

The table of the rules shows those that a filter asks for, in their order and with their
numbers in the whole list.  The document of the rules has all of them, whatever the
filter.  So the two show the same rules if and only if the filter leaves none out.
-/

set_option autoImplicit false

namespace ProxyConsole

open Console

/-! ## What a filter asks for -/

/-- A rule has a text in its payload or in its proxy. -/
def Rule.Mentions (r : Rule) (part : String) : Prop :=
  part.toList <:+: r.payload.toList ∨ part.toList <:+: r.proxy.toList

/-- A filter asks for a rule.  Without a filter every rule is asked for. -/
def Rule.AskedFor (r : Rule) (filter : Option String) : Prop :=
  ∀ part, filter = some part → r.Mentions part

/-- The rules of a list that a filter asks for, in their order, each with its place in the list. -/
structure RuleList.Shows (l : RuleList) (filter : Option String) (shown : List (Rule × Nat)) :
    Prop where
  ordered : shown.Sublist l.rules.zipIdx
  complete : ∀ x ∈ l.rules.zipIdx, x ∈ shown ↔ x.1.AskedFor filter

namespace Display

theorem occursIn_iff (part s : List Char) : occursIn part s = true ↔ part <:+: s := by
  induction s with
  | nil => rw [occursIn, List.isEmpty_iff, List.infix_nil]
  | cons c cs ih =>
    rw [occursIn, Bool.or_eq_true, List.isPrefixOf_iff_prefix, ih, List.infix_cons_iff]

theorem ruleMatches_iff (filter : Option String) (r : Rule) :
    ruleMatches filter r = true ↔ r.AskedFor filter := by
  cases filter with
  | none => simp [ruleMatches, Rule.AskedFor]
  | some part =>
    simp only [ruleMatches, hasPart, Bool.or_eq_true, occursIn_iff, Rule.AskedFor, Rule.Mentions,
      Option.some.injEq, forall_eq']

/-- A rule in the table, with its number: rules are counted from one. -/
def ruleRow (x : Rule × Nat) : List String :=
  [Decimal.natText (x.2 + 1), x.1.kind, truncate 48 x.1.payload, x.1.proxy]

/-- The table of some rules, one row for each. -/
def ruleTable (shown : List (Rule × Nat)) : String :=
  if shown.isEmpty then "No matching rules"
  else ({ titles := ["#", "TYPE", "PAYLOAD", "PROXY"], rows := shown.map ruleRow } : Table).text

theorem rules_eq (l : RuleList) (filter : Option String) :
    rules l filter = ruleTable (l.rules.zipIdx.filter fun x => ruleMatches filter x.1) := by
  unfold rules ruleTable
  generalize l.rules.zipIdx.filter _ = kept
  cases kept <;> rfl

end Display

namespace RuleList

variable {l : RuleList} {filter : Option String} {shown : List (Rule × Nat)}

theorem shows_filter (l : RuleList) (filter : Option String) :
    l.Shows filter (l.rules.zipIdx.filter fun x => Display.ruleMatches filter x.1) where
  ordered := List.filter_sublist
  complete := by
    intro x member
    rw [List.mem_filter, Display.ruleMatches_iff]
    exact and_iff_right member

theorem Shows.all_iff (shows : l.Shows filter shown) :
    shown.map Prod.fst = l.rules ↔ ∀ r ∈ l.rules, r.AskedFor filter := by
  constructor
  · intro same r member
    have whole : shown = l.rules.zipIdx := by
      refine shows.ordered.eq_of_length ?_
      rw [List.length_zipIdx, ← List.length_map Prod.fst, same]
    obtain ⟨place, inside, rfl⟩ := List.mem_iff_getElem.mp member
    have numbered : (l.rules[place], place) ∈ l.rules.zipIdx :=
      List.mk_mem_zipIdx_iff_getElem?.mpr (List.getElem?_eq_getElem inside)
    exact (shows.complete _ numbered).mp (whole ▸ numbered)
  · intro all
    have within : l.rules.zipIdx ⊆ shown := by
      intro x member
      exact (shows.complete x member).mpr (all x.1 (List.fst_mem_of_mem_zipIdx member))
    have whole : shown = l.rules.zipIdx :=
      shows.ordered.eq_of_length_le ((Positions.zipIdx_nodup l.rules).subperm within).length_le
    rw [whole, List.zipIdx_map_fst]

end RuleList

/-! ## What is printed -/

namespace Console.Command

open Dialogue

/-- What a listing of the rules prints for a list of rules that the client returned. -/
inductive Lists (filter : Option String) : Bool → List Operation → List Answer → String → Prop where
  | table (l : RuleList) (shown : List (Rule × Nat)) (shows : l.Shows filter shown) :
      Lists filter false [.rules] [.ok (.rules l)] (Display.ruleTable shown)
  | document (l : RuleList) (text : String) (read : RuleList.codec.ofText text = .ok l) :
      Lists filter true [.rules] [.ok (.rules l)] text

/-- What is printed for a list of rules. -/
def ruleText (filter : Option String) (json : Bool) (l : RuleList) : String :=
  if json then (RuleList.codec.encode l).prettyText else Display.rules l filter

theorem lists_ruleText (filter : Option String) (json : Bool) (l : RuleList) :
    Lists filter json [.rules] [.ok (.rules l)] (ruleText filter json l) := by
  cases json with
  | true => exact .document l _ (resources_survive.rules l)
  | false =>
    rw [ruleText, if_neg Bool.false_ne_true, Display.rules_eq]
    exact .table l _ (l.shows_filter filter)

theorem listRules_replay (filter : Option String) (json : Bool) (interrupt : Option Nat)
    (l : RuleList) :
    (dialogue (.listRules filter json) interrupt).replay [.ok (.rules l)] =
      { screen := .line (ruleText filter json l) ++ {}, outcome := some (.ok ()) } := by
  cases json <;> rfl

/-- The listings of the rules under a filter, whatever happens to the client. -/
structure RuleListings (settings : Settings) (filter : Option String) (interrupt : Option Nat) :
    Prop where
  prints : ∀ before json,
    (dialogue (.listRules filter json) interrupt).Prints (Client.run { settings } before)
      (Lists filter json)
  succeeds : ∀ l json, ∃ text,
    ((dialogue (.listRules filter json) interrupt).replay [.ok (.rules l)]).outcome =
        some (.ok ()) ∧
      ((dialogue (.listRules filter json) interrupt).replay [.ok (.rules l)]).screen.out =
        text ++ "\n" ∧
      Lists filter json [.rules] [.ok (.rules l)] text
  /-- Table and document show the same rules if and only if every rule is asked for. -/
  agree : ∀ l shown, RuleList.Shows l filter shown →
    (shown.map Prod.fst = l.rules ↔ ∀ r ∈ l.rules, r.AskedFor filter)

theorem rules_listed (settings : Settings) (filter : Option String) (interrupt : Option Nat) :
    RuleListings settings filter interrupt where
  prints before json := by
    refine prints_request fun events reply l _ picked => ?_
    cases reply <;> cases picked
    have lists := lists_ruleText filter json l
    cases json with
    | true => exact prints_document lists
    | false => exact prints_line lists
  succeeds l json := by
    refine ⟨ruleText filter json l, ?_, ?_, lists_ruleText filter json l⟩
    · rw [listRules_replay]
    · rw [listRules_replay]
      exact String.append_empty
  agree _ _ shows := shows.all_iff

/-- The document of the rules has exactly those that the filter asks for. -/
def DocumentsFiltered : Prop :=
  ∀ (filter : Option String) (l : RuleList) (text : String),
    ((dialogue (.listRules filter true) none).replay [.ok (.rules l)]).screen.out = text ++ "\n" →
      ∃ shown, l.Shows filter shown ∧ RuleList.codec.ofText text = .ok ⟨shown.map Prod.fst⟩

/-- A document has a rule that was not asked for. -/
theorem document_unfiltered : ¬ DocumentsFiltered := by
  intro filtered
  let l : RuleList := ⟨[{ kind := "GeoIP", payload := "CN", proxy := "DIRECT" },
    { kind := "Match", proxy := "Final" }]⟩
  obtain ⟨shown, shows, read⟩ := filtered (some "CN") l (ruleText (some "CN") true l) (by
    rw [listRules_replay]
    exact String.append_empty)
  have whole : shown.map Prod.fst = l.rules := by
    have read' : RuleList.codec.ofText (ruleText (some "CN") true l) = .ok l :=
      resources_survive.rules l
    rw [read] at read'
    exact congrArg RuleList.rules (Except.ok.inj read')
  have asked := shows.all_iff.mp whole { kind := "Match", proxy := "Final" } (by simp [l])
  rw [← Display.ruleMatches_iff] at asked
  revert asked
  decide

end Console.Command

end ProxyConsole
