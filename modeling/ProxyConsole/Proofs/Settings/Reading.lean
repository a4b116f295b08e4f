import ProxyConsole.Proofs.Settings.RoundTrip
import ProxyConsole.Proofs.Toml.Outline
import ProxyConsole.Proofs.Toml.Writable

/-!
# Settings of a document

Settings hold neither moments nor floating point numbers, so they depend only on the
outline of the document that they are read from.  Their numbers are integers of the
document and fit one again, or are defaults.
-/

set_option autoImplicit false

namespace ProxyConsole

open Json

/-! ## Outlines -/

/-- What is read depends only on the outline of a value. -/
def Codec.Coarse {α : Type} (c : Codec α) : Prop :=
  ∀ (v : Toml) a, c.decode v.outline.node = .ok a ↔ c.decode v.node = .ok a

def Field.Coarse {σ : Type} (f : Field σ) : Prop :=
  ∀ (v : Toml) s t, f.store v.outline.node s = .ok t ↔ f.store v.node s = .ok t

theorem Codec.coarse_string : Codec.string.Coarse := by
  intro v a
  cases v <;> exact Iff.rfl

theorem Codec.coarse_uint64 : Codec.uint64.Coarse := by
  intro v a
  cases v <;> exact Iff.rfl

theorem Codec.coarse_uint32 : Codec.uint32.Coarse := by
  intro v a
  cases v <;> exact Iff.rfl

mutual

theorem Toml.passOver_node : (v : Toml) → v.node.passOver = .ok ()
  | .string _ | .integer _ | .float _ | .bool _ | .moment _ => rfl
  | .array items => by rw [node, Node.passOver, passOver_itemNodes items]; rfl
  | .table entries => by rw [node, Node.passOver, passOver_memberNodes entries]; rfl

theorem Toml.passOver_itemNodes : (items : List Toml) → passOverItems (itemNodes items) = .ok ()
  | [] => rfl
  | item :: items => by
    rw [itemNodes, passOverItems, item.passOver_node]
    exact passOver_itemNodes items

theorem Toml.passOver_memberNodes :
    (entries : List (String × Toml)) → passOverMembers (memberNodes entries) = .ok ()
  | [] => rfl
  | (key, v) :: entries => by
    rw [memberNodes, passOverMembers, v.passOver_node]
    exact passOver_memberNodes entries

end

section Records

variable {σ α : Type} {r : Record σ}

theorem Field.coarse_of {c : Codec α} {name : String} {get : σ → α} {set : σ → α → σ}
    {required : Bool} (coarse : c.Coarse) : (Field.of name c get set required).Coarse := by
  intro v s t
  have stores : ∀ node, (Field.of name c get set required).store node s = .ok t ↔
      ∃ a, c.decode node = .ok a ∧ set s a = t := by
    intro node
    simp only [Field.of]
    cases c.decode node <;> simp [Except.map]
  rw [stores, stores]
  exact exists_congr fun a => and_congr_left' (coarse v a)

theorem Record.readMembers_outline (coarse : ∀ f ∈ r.fields, f.Coarse)
    (entries : List (String × Toml)) (seen : List String) (s : σ) (out : List String × σ) :
    r.readMembers (Toml.memberNodes (Toml.outlineEntries entries)) seen s = .ok out ↔
      r.readMembers (Toml.memberNodes entries) seen s = .ok out := by
  induction entries generalizing seen s with
  | nil => exact Iff.rfl
  | cons e entries ih =>
    obtain ⟨key, v⟩ := e
    rw [Toml.outlineEntries, Toml.memberNodes, Toml.memberNodes, readMembers_cons, readMembers_cons]
    refine exists₂_congr fun seen' t => and_congr ?_ (ih seen' t)
    constructor
    · rintro (⟨name, text, unknown, -⟩ | ⟨name, f, _, text, known, fresh, stored⟩)
      · exact .unknown name text unknown v.passOver_node
      · exact .field name f t text known fresh ((coarse f (name_of_field? known).1 v s t).mp stored)
    · rintro (⟨name, text, unknown, -⟩ | ⟨name, f, _, text, known, fresh, stored⟩)
      · exact .unknown name text unknown v.outline.passOver_node
      · exact .field name f t text known fresh
          ((coarse f (name_of_field? known).1 v s t).mpr stored)

theorem Record.readItems_outline {fields : List (Field σ)} (coarse : ∀ f ∈ fields, f.Coarse)
    (items : List Toml) (index : Nat) (s t : σ) :
    readItems fields (Toml.itemNodes (Toml.outlineItems items)) none index s = .ok t ↔
      readItems fields (Toml.itemNodes items) none index s = .ok t := by
  induction fields generalizing items index s with
  | nil => cases items <;> exact Iff.rfl
  | cons f fields ih =>
    obtain ⟨first, others⟩ := List.forall_mem_cons.mp coarse
    cases items with
    | nil => exact Iff.rfl
    | cons item items =>
      have reads : ∀ node nodes, readItems (f :: fields) (node :: nodes) none index s = .ok t ↔
          ∃ u, f.store node s = .ok u ∧ readItems fields nodes none (index + 1) u = .ok t := by
        intro node nodes
        rw [readItems]
        cases f.store node s <;> simp
      rw [Toml.outlineItems, Toml.itemNodes, Toml.itemNodes, reads, reads]
      exact exists_congr fun u => and_congr (first item s u) (ih others items (index + 1) u)

theorem Record.coarse (plain : r.field? Toml.momentKey = none) (fields : ∀ f ∈ r.fields, f.Coarse) :
    r.codec.Coarse := by
  intro v s
  change r.decode v.outline.node = .ok s ↔ r.decode v.node = .ok s
  cases v with
  | table entries =>
    rw [Toml.outline, Toml.node, Toml.node, decode_object, decode_object]
    refine and_congr_right fun _ => exists_congr fun seen => and_congr_left' ?_
    exact readMembers_outline fields entries [] r.blank (seen, s)
  | array items => exact readItems_outline fields items 0 r.blank s
  | moment m =>
    rw [Toml.outline, Toml.node, Toml.node, decode_object, decode_object]
    refine and_congr_right fun _ => exists_congr fun seen => and_congr_left' ?_
    rw [readMembers_cons, readMembers_cons]
    refine exists₂_congr fun seen' t => and_congr_left' ?_
    have either : ∀ text text', r.ReadsMember (Toml.literal Toml.momentKey, .string text) [] r.blank
        seen' t → text'.flaw = none →
        r.ReadsMember (Toml.literal Toml.momentKey, .string text') [] r.blank seen' t := by
      rintro text text' (⟨name, same, unknown, -⟩ | ⟨name, f, _, same, known, -⟩) flawless
      · exact .unknown name same unknown (by simp [Node.passOver, flawless])
      · cases same
        rw [plain] at known
        cases known
    exact ⟨fun reads => either _ _ reads rfl, fun reads => either _ _ reads rfl⟩
  | _ => exact Iff.rfl

end Records

theorem Timeouts.coarse : Timeouts.record.codec.Coarse :=
  Record.coarse rfl (by simp [Timeouts.record, Field.coarse_of, Codec.coarse_uint64])

theorem Retry.coarse : Retry.record.codec.Coarse :=
  Record.coarse rfl
    (by simp [Retry.record, Field.coarse_of, Codec.coarse_uint64, Codec.coarse_uint32])

theorem Lifetimes.coarse : Lifetimes.record.codec.Coarse :=
  Record.coarse rfl (by simp [Lifetimes.record, Field.coarse_of, Codec.coarse_uint64])

theorem Polling.coarse : Polling.record.codec.Coarse :=
  Record.coarse rfl (by simp [Polling.record, Field.coarse_of, Codec.coarse_uint64])

namespace Settings

theorem coarse : codec.Coarse :=
  Record.coarse rfl (by
    simp [record, Field.coarse_of, Codec.coarse_uint64, Codec.coarse_string, Timeouts.coarse,
      Retry.coarse, Lifetimes.coarse, Polling.coarse])

theorem cutSection_outline (key : String) (v : Toml) :
    cutSection key v.outline = (cutSection key v).outline := by
  cases v with
  | array items =>
    rw [Toml.outline, cutSection, cutSection]
    cases sectionSizes.lookup key with
    | none => rfl
    | some size =>
      dsimp only
      rw [Toml.outline, Toml.outlineItems_eq_map, Toml.outlineItems_eq_map, List.map_take]
  | _ => rfl

/-- The entries of a document as they are read: sections that are arrays are cut. -/
def cutEntries (entries : List (String × Toml)) : List (String × Toml) :=
  entries.map fun e => (e.1, cutSection e.1 e.2)

theorem ofToml?_table {entries : List (String × Toml)} {s : Settings} :
    ofToml? (.table entries) = some s ↔
      codec.decode (Toml.table (cutEntries entries)).node = .ok s := by
  unfold ofToml?
  dsimp only
  split
  · rename_i s' decoded
    have same : codec.decode (Toml.table (cutEntries entries)).node = .ok s' := decoded
    rw [same, Option.some.injEq, Except.ok.injEq]
  · rename_i e failed
    have same : codec.decode (Toml.table (cutEntries entries)).node = .error e := failed
    rw [same]
    simp

/-- Settings depend only on the outline of a document. -/
theorem ofToml?_outline (t : Toml) : ofToml? t.outline = ofToml? t := by
  cases t with
  | table entries =>
    refine Option.ext fun s => ?_
    have cut : cutEntries (Toml.outlineEntries entries) =
      Toml.outlineEntries (cutEntries entries) := by
      rw [Toml.outlineEntries_eq_map, Toml.outlineEntries_eq_map, cutEntries, cutEntries,
        List.map_map, List.map_map]
      exact List.map_congr_left fun e _ => congrArg (Prod.mk e.1) (cutSection_outline e.1 e.2)
    rw [Toml.outline, ofToml?_table, ofToml?_table, cut]
    exact coarse (.table (cutEntries entries)) s
  | _ => rfl

end Settings

/-! ## Numbers -/

/-- What is read from a document that was read. -/
def Codec.Yields {α : Type} (c : Codec α) (P : α → Prop) : Prop :=
  ∀ (v : Toml) a, Toml.Writable Toml.Rising v → c.decode v.node = .ok a → P a

/-- The greatest integer of a document. -/
def greatestInteger : Nat := 9223372036854775807

theorem Codec.yields_uint64 : Codec.uint64.Yields fun n => n.toNat ≤ greatestInteger := by
  intro v a writable decoded
  cases writable with
  | @integer i fits =>
    rw [Toml.fitsInteger, Bool.and_eq_true, decide_eq_true_eq, decide_eq_true_eq] at fits
    simp only [uint64, Toml.node, decodeNat] at decoded
    split at decoded
    · cases decoded
      rw [UInt64.toNat_ofNat', greatestInteger]
      omega
    · cases decoded
  | _ => cases decoded

theorem Codec.yields_uint32 : Codec.uint32.Yields fun n => n.toNat ≤ greatestInteger := by
  intro v a _ _
  have small := a.toNat_lt
  rw [greatestInteger]
  omega

theorem Codec.yields_any {α : Type} (c : Codec α) : c.Yields fun _ => True :=
  fun _ _ _ _ => trivial

section Yields

variable {σ α : Type} {r : Record σ} {P : σ → Prop} {Q : α → Prop}

def Field.Keeps (f : Field σ) (P : σ → Prop) : Prop :=
  ∀ (v : Toml) s t, Toml.Writable Toml.Rising v → P s → f.store v.node s = .ok t → P t

theorem Field.keeps_of {c : Codec α} {name : String} {get : σ → α} {set : σ → α → σ}
    {required : Bool} (yields : c.Yields Q) (kept : ∀ s a, P s → Q a → P (set s a)) :
    (Field.of name c get set required).Keeps P := by
  intro v s t writable before stored
  simp only [Field.of] at stored
  cases decoded : c.decode v.node with
  | error e =>
    rw [decoded] at stored
    cases stored
  | ok a =>
    rw [decoded] at stored
    cases stored
    exact kept s a before (yields v a writable decoded)

theorem Record.yields (blank : P r.blank) (fields : ∀ f ∈ r.fields, f.Keeps P) :
    r.codec.Yields P := by
  intro v s writable decoded
  refine @Record.decode_preserves_inside σ r P (fun node => ∃ v, Toml.Writable Toml.Rising v ∧
    v.node = node) v.node ?_ blank ?_ s decoded
  · intro inner inside
    cases writable with
    | moment fits =>
      cases inside with
      | member _ member =>
        rw [List.mem_singleton.mp member]
        exact ⟨.string _, .string _, rfl⟩
    | @array items each =>
      cases inside with
      | item _ member =>
        rw [Toml.itemNodes_eq_map] at member
        obtain ⟨item, member', rfl⟩ := List.mem_map.mp member
        exact ⟨item, each item member', rfl⟩
    | @table entries _ each =>
      cases inside with
      | member _ member =>
        rw [Toml.memberNodes_eq_map] at member
        obtain ⟨e, member', rfl⟩ := List.mem_map.mp member
        exact ⟨e.2, each e member', rfl⟩
    | _ => cases inside
  · rintro f inside node s t ⟨v, writable, rfl⟩ before stored
    exact fields f inside v s t writable before stored

end Yields

/-- Numbers that fit a document. -/
def FitNumbers (ns : List Nat) : Prop :=
  ∀ n ∈ ns, n ≤ greatestInteger

instance : DecidablePred FitNumbers :=
  fun ns => inferInstanceAs (Decidable (∀ n ∈ ns, n ≤ greatestInteger))

@[simp]
theorem fitNumbers_nil : FitNumbers [] :=
  List.forall_mem_nil _

@[simp]
theorem fitNumbers_cons {n : Nat} {ns : List Nat} :
    FitNumbers (n :: ns) ↔ n ≤ greatestInteger ∧ FitNumbers ns :=
  List.forall_mem_cons

theorem Timeouts.yields : Timeouts.record.codec.Yields fun t =>
    FitNumbers [t.quick.toNat, t.normal.toNat, t.long.toNat] :=
  Record.yields (by decide) (by
    simp only [Timeouts.record, List.forall_mem_cons]
    refine ⟨?_, ?_, ?_, List.forall_mem_nil _⟩
    all_goals exact Field.keeps_of Codec.yields_uint64 fun s a before fits => by simp_all)

theorem Retry.yields : Retry.record.codec.Yields fun r =>
    FitNumbers [r.maxAttempts.toNat, r.backoff.toNat] :=
  Record.yields (by decide) (by
    simp only [Retry.record, List.forall_mem_cons]
    refine ⟨?_, ?_, List.forall_mem_nil _⟩
    · exact Field.keeps_of Codec.yields_uint32 fun s a before fits => by simp_all
    · exact Field.keeps_of Codec.yields_uint64 fun s a before fits => by simp_all)

theorem Lifetimes.yields : Lifetimes.record.codec.Yields fun l =>
    FitNumbers [l.config.toNat, l.proxies.toNat] :=
  Record.yields (by decide) (by
    simp only [Lifetimes.record, List.forall_mem_cons]
    refine ⟨?_, ?_, List.forall_mem_nil _⟩
    all_goals exact Field.keeps_of Codec.yields_uint64 fun s a before fits => by simp_all)

theorem Polling.yields : Polling.record.codec.Yields fun p =>
    FitNumbers [p.interval.toNat, p.probeTimeout.toNat, p.maxWait.toNat] :=
  Record.yields (by decide) (by
    simp only [Polling.record, List.forall_mem_cons]
    refine ⟨?_, ?_, ?_, List.forall_mem_nil _⟩
    all_goals exact Field.keeps_of Codec.yields_uint64 fun s a before fits => by simp_all)

namespace Settings

theorem yields : codec.Yields fun s => FitNumbers s.numbers :=
  Record.yields (by decide) (by
    simp only [record, List.forall_mem_cons]
    refine ⟨?_, ?_, ?_, ?_, ?_, ?_, List.forall_mem_nil _⟩
    · exact Field.keeps_of (Codec.yields_any _) fun s a before _ => before
    · exact Field.keeps_of Codec.yields_uint64 fun s a before fits => by simp_all [numbers]
    · exact Field.keeps_of Timeouts.yields fun s a before fits => by simp_all [numbers]
    · exact Field.keeps_of Retry.yields fun s a before fits => by simp_all [numbers]
    · exact Field.keeps_of Lifetimes.yields fun s a before fits => by simp_all [numbers]
    · exact Field.keeps_of Polling.yields fun s a before fits => by simp_all [numbers])

theorem writable_cutSection {v : Toml} (writable : Toml.Writable Toml.Rising v) (key : String) :
    Toml.Writable Toml.Rising (cutSection key v) := by
  cases v with
  | array items =>
    rw [cutSection]
    split
    · cases writable with
      | array each => exact .array fun item inside => each item (List.mem_of_mem_take inside)
    · exact writable
  | _ => exact writable

theorem writable_cutEntries {entries : List (String × Toml)}
    (writable : Toml.Writable Toml.Rising (.table entries)) :
    Toml.Writable Toml.Rising (.table (cutEntries entries)) := by
  cases writable with
  | table keys each =>
    refine .table ?_ (List.forall_mem_map.mpr fun e member =>
      writable_cutSection (each e member) e.1)
    rw [cutEntries, List.map_map]
    exact keys

theorem toToml?_of_read {entries : List (String × Toml)}
    (writable : Toml.Writable Toml.Rising (.table entries)) {s : Settings}
    (read : ofToml? (.table entries) = some s) : ∃ t, s.toToml? = some t := by
  have fits := yields _ s (writable_cutEntries writable) (ofToml?_table.mp read)
  refine Option.ne_none_iff_exists'.mp fun none => ?_
  obtain ⟨n, member, large⟩ := (toToml?_eq_none s).mp none
  exact Nat.not_lt.mpr (fits n member) large

end Settings

end ProxyConsole
