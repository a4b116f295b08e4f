import ProxyConsole.Proofs.Json.Literal

/-!
# Literals piece by piece

Between its quotes a literal is a sequence of pieces, each a byte that stands for itself, a short
escape, or an escaped code unit.  These are the literals that can be passed over, and what a literal
reads as is told by its pieces: two code units in a row may stand for one character.
-/

set_option autoImplicit false

namespace ProxyConsole.Json

inductive Piece where
  | plain (b : UInt8) (shown : 0x20 ≤ b) (noQuote : b ≠ 0x22) (noBackslash : b ≠ 0x5C)
  | escape (e b : UInt8) (known : simpleEscape? e = some b)
  | unit (a b c d : UInt8) (n : Nat) (quad : hexQuad? a b c d = some n)

namespace Piece

def bytes : Piece → List UInt8
  | plain b _ _ _ => [b]
  | escape e _ _ => [0x5C, e]
  | unit a b c d _ _ => [0x5C, 0x75, a, b, c, d]

end Piece

/-- The bytes of the pieces of a literal. -/
def piecesBytes (pieces : List Piece) : List UInt8 :=
  pieces.flatMap Piece.bytes

/-- What the pieces of a literal read as. -/
def readPieces : List Piece → Except Fault (List UInt8)
  | [] => .ok []
  | .plain b _ _ _ :: pieces => withBytes [b] (readPieces pieces)
  | .escape _ b _ :: pieces => withBytes [b] (readPieces pieces)
  | .unit _ _ _ _ n _ :: pieces =>
    if isLowSurrogate n then .error .malformed
    else if isHighSurrogate n then
      match pieces with
      | .unit _ _ _ _ low _ :: pieces =>
        if isLowSurrogate low then
          withBytes (Utf8.encodeChar (Char.ofNat (joinSurrogates n low))) (readPieces pieces)
        else .error .malformed
      | _ => .error .malformed
    else withBytes (Utf8.encodeChar (Char.ofNat n)) (readPieces pieces)

def Literal.ofPieces (pieces : List Piece) : Literal :=
  ⟨(readPieces pieces).bind textOfBytes, none⟩

theorem escape_ne_unit {e b : UInt8} (known : simpleEscape? e = some b) : e ≠ 0x75 := by
  rintro rfl
  cases known

theorem piecesBytes_cons (piece : Piece) (pieces : List Piece) :
    piecesBytes (piece :: pieces) = piece.bytes ++ piecesBytes pieces :=
  List.flatMap_cons

/-! ## Pieces are passed over -/

theorem afterLiteral_pieces {pieces : List Piece} {fuel : Nat} {rest : List UInt8}
    (enough : (piecesBytes pieces).length < fuel) :
    afterLiteral fuel (piecesBytes pieces ++ 0x22 :: rest) = .ok rest := by
  induction pieces generalizing fuel with
  | nil =>
    cases fuel with
    | zero => cases enough
    | succ fuel => rfl
  | cons piece pieces ih =>
    rw [piecesBytes_cons, List.length_append] at enough
    rw [piecesBytes_cons, List.append_assoc]
    cases fuel with
    | zero => cases enough
    | succ fuel =>
      cases piece with
      | plain b shown noQuote noBackslash =>
        simp only [Piece.bytes, List.length_singleton] at enough
        have notSmall : ¬ b < 0x20 := UInt8.not_lt.mpr shown
        rw [Piece.bytes, List.singleton_append, afterLiteral, if_neg notSmall, ih (by omega)]
        all_goals grind
      | escape e b known =>
        simp only [Piece.bytes, List.length_cons, List.length_nil] at enough
        have other := escape_ne_unit known
        simp only [Piece.bytes, List.cons_append, List.nil_append]
        rw [afterLiteral, known, ih (by omega)]
        all_goals grind
      | unit a b c d n quad =>
        simp only [Piece.bytes, List.length_cons, List.length_nil] at enough
        simp only [Piece.bytes, List.cons_append, List.nil_append]
        rw [afterLiteral, quad, ih (by omega)]

theorem pieces_of_afterLiteral {fuel : Nat} {bytes rest : List UInt8}
    (passed : afterLiteral fuel bytes = .ok rest) :
    ∃ pieces, bytes = piecesBytes pieces ++ 0x22 :: rest := by
  fun_induction afterLiteral fuel bytes with
  | case3 fuel tail =>
    cases passed
    exact ⟨[], rfl⟩
  | case6 fuel a b c d tail n quad ih =>
    obtain ⟨pieces, rfl⟩ := ih passed
    exact ⟨.unit a b c d n quad :: pieces, rfl⟩
  | case9 fuel e tail _ _ b known ih =>
    obtain ⟨pieces, rfl⟩ := ih passed
    exact ⟨.escape e b known :: pieces, rfl⟩
  | case11 fuel b tail noQuote alone _ _ followed shown ih =>
    obtain ⟨pieces, rfl⟩ := ih passed
    have noBackslash : b ≠ 0x5C := by
      rintro rfl
      cases tail : piecesBytes pieces ++ 0x22 :: rest with
      | nil => exact alone rfl tail
      | cons e others => exact followed e others rfl tail
    exact ⟨.plain b (UInt8.not_lt.mp shown) noQuote noBackslash :: pieces, rfl⟩
  | _ => cases passed

/-! ## What pieces read as -/

theorem lowHalf?_unit {a b c d : UInt8} {n : Nat} (quad : hexQuad? a b c d = some n)
    (rest : List UInt8) : lowHalf? (0x5C :: 0x75 :: a :: b :: c :: d :: rest) =
      if isLowSurrogate n then .ok (n, rest) else .error .malformed := by
  rw [lowHalf?, quad]

theorem lowHalf?_other {pieces : List Piece} (rest : List UInt8)
    (other : ∀ a b c d n quad more, pieces ≠ .unit a b c d n quad :: more) :
    lowHalf? (piecesBytes pieces ++ 0x22 :: rest) = .error .malformed := by
  cases pieces with
  | nil => rfl
  | cons piece pieces =>
    rw [piecesBytes_cons, List.append_assoc]
    cases piece with
    | plain b shown noQuote noBackslash =>
      rw [Piece.bytes, List.singleton_append, lowHalf?]
      all_goals grind
    | escape e b known =>
      have noUnit := escape_ne_unit known
      simp only [Piece.bytes, List.cons_append, List.nil_append]
      rw [lowHalf?]
      all_goals grind
    | unit a b c d n quad => exact absurd rfl (other a b c d n quad pieces)

theorem contents_plain {b : UInt8} (shown : 0x20 ≤ b) (noQuote : b ≠ 0x22) (noBackslash : b ≠ 0x5C)
    (fuel : Nat) (rest : List UInt8) :
    contents (fuel + 1) (b :: rest) = withBytes [b] (contents fuel rest) := by
  have notSmall : ¬ b < 0x20 := UInt8.not_lt.mpr shown
  rw [contents, if_neg notSmall]
  all_goals grind

theorem contents_escape {e b : UInt8} (known : simpleEscape? e = some b) (fuel : Nat)
    (rest : List UInt8) :
    contents (fuel + 1) (0x5C :: e :: rest) = withBytes [b] (contents fuel rest) := by
  have noUnit := escape_ne_unit known
  rw [contents, known]
  all_goals grind

theorem contents_unit {a b c d : UInt8} {n : Nat} (quad : hexQuad? a b c d = some n) (fuel : Nat)
    (rest : List UInt8) :
    contents (fuel + 1) (0x5C :: 0x75 :: a :: b :: c :: d :: rest) =
      if isLowSurrogate n then .error .malformed
      else if isHighSurrogate n then
        (lowHalf? rest).bind fun half =>
          withBytes (Utf8.encodeChar (Char.ofNat (joinSurrogates n half.1))) (contents fuel half.2)
      else withBytes (Utf8.encodeChar (Char.ofNat n)) (contents fuel rest) := by
  simp only [contents, quad]
  cases lowHalf? rest <;> rfl

theorem contents_pieces {pieces : List Piece} {fuel : Nat} {rest : List UInt8}
    (enough : (piecesBytes pieces).length < fuel) :
    contents fuel (piecesBytes pieces ++ 0x22 :: rest) = readPieces pieces := by
  fun_induction readPieces pieces generalizing fuel
  all_goals cases fuel with
    | zero => cases enough
    | succ fuel => ?_
  case case1 => rfl
  all_goals
    simp only [piecesBytes_cons, Piece.bytes, List.length_append, List.length_cons, List.length_nil]
      at enough
    simp only [piecesBytes_cons, Piece.bytes, List.cons_append, List.nil_append]
  case case2 b shown noQuote noBackslash pieces ih =>
    rw [contents_plain shown noQuote noBackslash, ih (by omega)]
  case case3 e b known pieces ih => rw [contents_escape known, ih (by omega)]
  case case4 quad pieces low => rw [contents_unit quad, if_pos low]
  case case5 quad notLow high _ _ _ _ _ quad' pieces low ih =>
    have others := ih (by omega : _ < fuel)
    simp only [contents_unit quad, if_neg notLow, if_pos high, lowHalf?_unit quad', if_pos low,
      Except.bind, others]
  case case6 quad notLow high _ _ _ _ _ quad' pieces alone =>
    simp only [contents_unit quad, if_neg notLow, if_pos high, lowHalf?_unit quad', if_neg alone,
      Except.bind]
  case case7 quad pieces notLow high other =>
    simp only [contents_unit quad, if_neg notLow, if_pos high, lowHalf?_other rest other,
      Except.bind]
  case case8 quad pieces notLow notHigh ih =>
    rw [contents_unit quad, if_neg notLow, if_neg notHigh, ih (by omega)]

theorem scanLiteral_pieces (pieces : List Piece) (rest : List UInt8) :
    scanLiteral (piecesBytes pieces ++ 0x22 :: rest) = (.ofPieces pieces, rest) := by
  have enough : (piecesBytes pieces).length < (piecesBytes pieces ++ 0x22 :: rest).length + 1 := by
    rw [List.length_append]
    omega
  rw [scanLiteral, afterLiteral_pieces enough, contents_pieces enough]
  rfl

/-- A literal after which something is left consists of pieces. -/
theorem pieces_of_scanLiteral {bytes rest : List UInt8} {literal : Literal}
    (scanned : scanLiteral bytes = (literal, rest)) (left : rest ≠ []) :
    ∃ pieces, bytes = piecesBytes pieces ++ 0x22 :: rest ∧ literal = .ofPieces pieces := by
  cases passed : afterLiteral (bytes.length + 1) bytes with
  | error f =>
    simp only [scanLiteral, passed] at scanned
    exact absurd (Prod.mk.inj scanned).2.symm left
  | ok others =>
    obtain ⟨pieces, rfl⟩ := pieces_of_afterLiteral passed
    rw [scanLiteral_pieces] at scanned
    obtain ⟨rfl, rfl⟩ := Prod.mk.inj scanned
    exact ⟨pieces, rfl, rfl⟩

end ProxyConsole.Json
