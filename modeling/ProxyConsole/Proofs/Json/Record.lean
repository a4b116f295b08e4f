import ProxyConsole.Json.Record
import ProxyConsole.Proofs.Json.Document

/-!
# Faithful codecs

A codec is faithful if every value is read back from its own text.  A record is read
back when each of its fields is, whether or not fields without a value are written.
-/

set_option autoImplicit false

namespace ProxyConsole

open Json

/-- A value is written as a document from which it is read. -/
def Codec.Keeps {α : Type} (c : Codec α) (a : α) : Prop :=
  ∃ node, Written (c.encode a) node ∧ c.decode node = .ok a

/-- Every value is written as a document from which it is read. -/
def Codec.Faithful {α : Type} (c : Codec α) : Prop :=
  ∀ a, ∃ node, Written (c.encode a) node ∧ c.decode node = .ok a

namespace Codec

variable {α : Type} {c : Codec α}

theorem Faithful.decodeBytes (faithful : c.Faithful) (a : α) :
    Json.decodeBytes c.decode (bytes (c.encode a)) = .ok a := by
  obtain ⟨node, written, decoded⟩ := faithful a
  rw [Json.decodeBytes, Document.scan_bytes written]
  simp only [decoded]
  rfl

theorem Faithful.ofText (faithful : c.Faithful) (a : α) : c.ofText (c.text a) = .ok a := by
  have read := faithful.decodeBytes a
  rw [Json.bytes] at read
  rw [Codec.ofText, Json.decodeText, Codec.text, Json.compactText, Utf8.encode,
    String.toList_ofList, read]

theorem faithful_bool : bool.Faithful :=
  fun b => ⟨.bool b, .bool b, rfl⟩

theorem faithful_string : string.Faithful :=
  fun s => ⟨.string (.ofText s), .string s, rfl⟩

theorem fitsInteger_nat {n : Nat} (fits : n < UInt64.size) : FitsInteger n := by
  have limit : n < significandLimit := fits
  constructor <;> omega

theorem decodeNat_ofInt {limit n : Nat} (fits : n < limit) :
    decodeNat limit (.number (.ofInt n)) = .ok n := by
  have range : (0 : Int) ≤ n ∧ (n : Int) < limit := ⟨Int.natCast_nonneg n, by omega⟩
  simp only [decodeNat, Numeral.ofInt, if_pos range, Int.toNat_natCast]

theorem faithful_number {limit : Nat} {toNat : α → Nat} {ofNat : Nat → α}
    (fits : limit ≤ UInt64.size) (small : ∀ a, toNat a < limit) (back : ∀ a, ofNat (toNat a) = a) :
    Codec.Faithful ⟨fun a => .nat (toNat a), fun node => (decodeNat limit node).map ofNat⟩ := by
  intro a
  refine ⟨.number (.ofInt (toNat a)), .integer _ (fitsInteger_nat ?_), ?_⟩
  · exact Nat.lt_of_lt_of_le (small a) fits
  · have read : decodeNat limit (.number (.ofInt (toNat a))) = .ok (toNat a) :=
      decodeNat_ofInt (small a)
    simp only [read, Except.map, back]

theorem faithful_uint16 : uint16.Faithful :=
  faithful_number (by decide) UInt16.toNat_lt_size fun _ => UInt16.ofNat_toNat

theorem faithful_uint32 : uint32.Faithful :=
  faithful_number (by decide) UInt32.toNat_lt_size fun _ => UInt32.ofNat_toNat

theorem faithful_uint64 : uint64.Faithful :=
  faithful_number (Nat.le_refl _) UInt64.toNat_lt_size fun _ => UInt64.ofNat_toNat

theorem faithful_variant {variants : List (String × α)} {name : α → String}
    (known : ∀ a, variants.lookup (name a) = some a) :
    Codec.Faithful ⟨fun a => .string (name a), decodeVariant variants⟩ := by
  intro a
  refine ⟨.string (.ofText (name a)), .string (name a), ?_⟩
  simp only [decodeVariant, Literal.ofText, liftFault, known]

end Codec

/-! ## Fields -/

variable {σ α : Type}

/-- Reading what a field of `s` is written as takes one record to another. -/
inductive Field.Restores (f : Field σ) (s : σ) : σ → σ → Prop where
  | absent {t : σ} (skipped : f.render s = none) (spare : f.required = false) : Restores f s t t
  | present {t t' : σ} {j : Json} {node : Node} (rendered : f.render s = some j)
      (written : Written j node) (stored : f.store node t = .ok t') : Restores f s t t'

/-- Reading what fields of `s` are written as takes one record to another. -/
inductive Restores (s : σ) : List (Field σ) → σ → σ → Prop where
  | nil {t : σ} : Restores s [] t t
  | cons {f : Field σ} {fields : List (Field σ)} {t t' t'' : σ} (first : f.Restores s t t')
      (others : Restores s fields t' t'') : Restores s (f :: fields) t t''

theorem Field.restores_of_keeps {c : Codec α} {get : σ → α} {s : σ} (keeps : c.Keeps (get s))
    (name : String) (set : σ → α → σ) (required : Bool) (t : σ) :
    (Field.of name c get set required).Restores s t (set t (get s)) := by
  obtain ⟨node, written, decoded⟩ := keeps
  refine .present rfl written ?_
  simp only [Field.of, decoded, Except.map]

theorem Field.restores_of {c : Codec α} (faithful : c.Faithful) (name : String) (get : σ → α)
    (set : σ → α → σ) (required : Bool) (s t : σ) :
    (Field.of name c get set required).Restores s t (set t (get s)) :=
  restores_of_keeps (faithful (get s)) name set required t

theorem Codec.decodeOption_some {c : Codec α} {a : α} {node : Node} (marked : c.encode a ≠ .null)
    (written : Written (c.encode a) node) (decoded : c.decode node = .ok a) :
    decodeOption c.decode node = .ok (some a) := by
  rw [decodeOption, decoded]
  · rfl
  · rintro rfl
    cases encoded : c.encode a <;> rw [encoded] at written marked <;> cases written
    exact marked rfl

theorem Field.restores_optional {c : Codec α} (faithful : c.Faithful)
    (marked : ∀ a, c.encode a ≠ .null) (name : String) (get : σ → Option α)
    (set : σ → Option α → σ) (s t : σ) :
    (Field.optional name c get set).Restores s t
      (match get s with
        | none => t
        | some a => set t (some a)) := by
  cases value : get s with
  | none =>
    refine .absent ?_ rfl
    simp only [Field.optional, value, Option.map_none]
  | some a =>
    obtain ⟨node, written, decoded⟩ := faithful a
    have rendered : (Field.optional name c get set).render s = some (c.encode a) := by
      simp only [Field.optional, value, Option.map_some]
    refine .present rendered written ?_
    have read := Codec.decodeOption_some (marked a) written decoded
    simp only [Field.optional, Codec.option, read, Except.map]

/-! ## Records -/

theorem find?_of_distinct {fields : List (Field σ)} (distinct : (fields.map Field.name).Nodup)
    {f : Field σ} (member : f ∈ fields) : fields.find? (·.name = f.name) = some f := by
  induction fields with
  | nil => cases member
  | cons g rest ih =>
    rw [List.map_cons, List.nodup_cons] at distinct
    rcases List.mem_cons.mp member with rfl | inRest
    · rw [List.find?_cons_of_pos (by simp)]
    · have differs : g.name ≠ f.name := by
        intro same
        exact distinct.1 (by rw [same]; exact List.mem_map_of_mem inRest)
      rw [List.find?_cons_of_neg (by simpa using differs)]
      exact ih distinct.2 inRest

/-- The members that fields of a record are written as. -/
def membersOf (s : σ) (fields : List (Field σ)) : List (String × Json) :=
  fields.filterMap fun f => (f.render s).map (f.name, ·)

theorem membersOf_names (s : σ) (fields : List (Field σ)) :
    ((membersOf s fields).map Prod.fst).Sublist (fields.map Field.name) := by
  induction fields with
  | nil => exact List.Sublist.refl _
  | cons f fields ih =>
    rw [membersOf, List.filterMap_cons, List.map_cons]
    cases f.render s with
    | none => exact ih.cons _
    | some j => exact ih.cons_cons _

/-- Reading the members of a record one after another restores its fields, none of which has
been seen before, and leaves no required one unseen. -/
theorem Restores.readMembers {r : Record σ} {s t t' : σ} {fields : List (Field σ)}
    (restores : Restores s fields t t') (known : ∀ f ∈ fields, r.field? f.name = some f)
    (distinct : (fields.map Field.name).Nodup) (seen : List String)
    (fresh : ∀ f ∈ fields, f.name ∉ seen) :
    ∃ nodes seen', WrittenMembers (membersOf s fields) nodes ∧
      r.readMembers nodes seen t = .ok (seen', t') ∧ seen ⊆ seen' ∧
      ∀ f ∈ fields, f.required = true → f.name ∈ seen' := by
  induction restores generalizing seen with
  | nil => exact ⟨[], seen, .nil, rfl, List.Subset.refl _, by simp⟩
  | @cons f fields t t' t'' first others ih =>
    rw [List.map_cons, List.nodup_cons] at distinct
    have knownLater : ∀ g ∈ fields, r.field? g.name = some g :=
      fun g member => known g (List.mem_cons_of_mem _ member)
    have freshLater : ∀ g ∈ fields, g.name ∉ seen :=
      fun g member => fresh g (List.mem_cons_of_mem _ member)
    cases first with
    | absent skipped spare =>
      obtain ⟨nodes, seen', written, read, kept, required⟩ :=
        ih knownLater distinct.2 seen freshLater
      refine ⟨nodes, seen', ?_, read, kept, ?_⟩
      · rw [membersOf, List.filterMap_cons, skipped]
        exact written
      · intro g member needed
        rcases List.mem_cons.mp member with rfl | later
        · rw [spare] at needed
          cases needed
        · exact required g later needed
    | @present _ j node rendered written stored =>
      have unseen : ∀ g ∈ fields, g.name ∉ f.name :: seen := by
        intro g member repeated
        rcases List.mem_cons.mp repeated with same | earlier
        · exact distinct.1 (by rw [← same]; exact List.mem_map_of_mem member)
        · exact freshLater g member earlier
      obtain ⟨nodes, seen', others', read, kept, required⟩ :=
        ih knownLater distinct.2 (f.name :: seen) unseen
      refine ⟨(.ofText f.name, node) :: nodes, seen', ?_, ?_, ?_, ?_⟩
      · rw [membersOf, List.filterMap_cons, rendered]
        exact .cons f.name written others'
      · rw [Record.readMembers, Literal.ofText, liftFault]
        simp only [known f List.mem_cons_self, if_neg (fresh f List.mem_cons_self), stored, read]
      · exact fun name earlier => kept (List.mem_cons_of_mem _ earlier)
      · intro g member needed
        rcases List.mem_cons.mp member with rfl | later
        · exact kept List.mem_cons_self
        · exact required g later needed

theorem Record.keeps {r : Record σ} (distinct : (r.fields.map Field.name).Nodup) {s : σ}
    (restores : Restores s r.fields r.blank s) : r.codec.Keeps s := by
  obtain ⟨nodes, seen, written, read, _, required⟩ := restores.readMembers (r := r)
    (fun f member => find?_of_distinct distinct member) distinct [] (by simp)
  refine ⟨.object nodes none, .object written, ?_⟩
  have complete : r.missing? seen = none := by
    rw [Record.missing?, Option.map_eq_none_iff, List.find?_eq_none]
    intro f member lacking
    rw [Bool.and_eq_true, Bool.not_eq_true', List.contains_eq_mem] at lacking
    have present := required f member lacking.1
    simp [present] at lacking
  simp only [Record.codec, Record.decode, read, atEnd, complete]

theorem Record.faithful {r : Record σ} (distinct : (r.fields.map Field.name).Nodup)
    (restores : ∀ s, Restores s r.fields r.blank s) : r.codec.Faithful :=
  fun s => Record.keeps distinct (restores s)

end ProxyConsole
