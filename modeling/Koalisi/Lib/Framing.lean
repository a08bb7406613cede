import Mathlib.Algebra.Group.Nat.Defs
import Mathlib.Tactic.TypeStar
import Mathlib.Data.List.Basic
import Mathlib.Data.List.TakeDrop

/-!
# Length-prefixed frames in a string of bytes

A frame is written as its length, a little-endian `u32`, followed by its bytes;
a file is a run of such frames, possibly with the beginning of one more behind
them.  Reading such a file is unambiguous: every string of bytes splits in
exactly one way into whole frames and a rest that is *torn*, too short to hold
the frame it announces.  `fitting` counts the whole frames in what is left of a
file that was cut somewhere.
-/

namespace Koalisi.Lib.Framing

/-- A string of bytes. -/
abbrev Bytes := List UInt8

/-! ## The length prefix -/

/-- The four bytes of a `u32`, least significant first. -/
def toLeBytes (n : Nat) : Bytes :=
  [UInt8.ofNat n, UInt8.ofNat (n / 2 ^ 8), UInt8.ofNat (n / 2 ^ 16), UInt8.ofNat (n / 2 ^ 24)]

/-- The `u32` in the first four bytes. -/
def ofLeBytes : Bytes → Nat
  | a :: b :: c :: d :: _ => a.toNat + 2 ^ 8 * b.toNat + 2 ^ 16 * c.toNat + 2 ^ 24 * d.toNat
  | _ => 0

@[simp] theorem length_toLeBytes (n : Nat) : (toLeBytes n).length = 4 := rfl

theorem ofLeBytes_toLeBytes {n : Nat} (h : n < 2 ^ 32) (rest : Bytes) :
    ofLeBytes (toLeBytes n ++ rest) = n := by
  change (UInt8.ofNat n).toNat + 2 ^ 8 * (UInt8.ofNat (n / 2 ^ 8)).toNat
    + 2 ^ 16 * (UInt8.ofNat (n / 2 ^ 16)).toNat + 2 ^ 24 * (UInt8.ofNat (n / 2 ^ 24)).toNat = n
  simp only [UInt8.toNat_ofNat']
  omega

theorem ofLeBytes_lt (bs : Bytes) : ofLeBytes bs < 2 ^ 32 := by
  unfold ofLeBytes
  split
  · rename_i a b c d _
    have ha := a.toNat_lt
    have hb := b.toNat_lt
    have hc := c.toNat_lt
    have hd := d.toNat_lt
    omega
  · exact Nat.two_pow_pos 32

/-- Four bytes are the encoding of the number they hold. -/
theorem toLeBytes_ofLeBytes {bs : Bytes} (h : 4 ≤ bs.length) :
    toLeBytes (ofLeBytes bs) = bs.take 4 := by
  match bs, h with
  | a :: b :: c :: d :: rest, _ =>
      have ha := a.toNat_lt
      have hb := b.toNat_lt
      have hc := c.toNat_lt
      have hd := d.toNat_lt
      simp only [toLeBytes, ofLeBytes, List.take, List.cons.injEq, and_true,
        ← UInt8.toNat_inj, UInt8.toNat_ofNat']
      omega

/-! ## Frames -/

/-- The bytes of one frame, its length in front. -/
def framed (p : Bytes) : Bytes := toLeBytes p.length ++ p

/-- Frames one after the other. -/
def packed (ps : List Bytes) : Bytes := (ps.map framed).flatten

/-- Where each frame starts when the first starts at `pos`. -/
def starts (pos : Nat) : List Bytes → List Nat
  | [] => []
  | p :: ps => pos :: starts (pos + (framed p).length) ps

/-- The length of a frame fits its prefix. -/
def Small (p : Bytes) : Prop := p.length < 2 ^ 32

@[simp] theorem length_framed (p : Bytes) : (framed p).length = 4 + p.length := by
  rw [framed, List.length_append, length_toLeBytes]

@[simp] theorem packed_nil : packed [] = [] := rfl

@[simp] theorem packed_cons (p : Bytes) (ps : List Bytes) :
    packed (p :: ps) = framed p ++ packed ps := rfl

@[simp] theorem packed_append (ps qs : List Bytes) :
    packed (ps ++ qs) = packed ps ++ packed qs := by
  rw [packed, List.map_append, List.flatten_append, packed, packed]

@[simp] theorem length_starts (pos : Nat) (ps : List Bytes) :
    (starts pos ps).length = ps.length := by
  induction ps generalizing pos with
  | nil => rfl
  | cons p ps ih => rw [starts, List.length_cons, ih, List.length_cons]

theorem starts_append (pos : Nat) (ps qs : List Bytes) :
    starts pos (ps ++ qs) = starts pos ps ++ starts (pos + (packed ps).length) qs := by
  induction ps generalizing pos with
  | nil => rfl
  | cons p ps ih =>
      rw [List.cons_append, starts, ih, starts, packed_cons, List.length_append,
        List.cons_append, Nat.add_assoc]

/-- Each start is the length of all frames before it. -/
theorem starts_getElem? {ps : List Bytes} {i : Nat} (h : i < ps.length) (pos : Nat) :
    (starts pos ps)[i]? = some (pos + (packed (ps.take i)).length) := by
  conv_lhs => rw [← List.take_append_drop i ps, starts_append]
  rw [List.drop_eq_getElem_cons h, starts, List.getElem?_append_right]
  · rw [length_starts, List.length_take_of_le (Nat.le_of_lt h), Nat.sub_self,
      List.getElem?_cons_zero]
  · rw [length_starts]
    exact List.length_take_le _ _

theorem ofLeBytes_framed {p : Bytes} (h : Small p) (rest : Bytes) :
    ofLeBytes (framed p ++ rest) = p.length := by
  rw [framed, List.append_assoc]
  exact ofLeBytes_toLeBytes h _

/-! ## What is left when a file is cut -/

/-- A rest that is too short for the frame it announces. -/
def Torn (t : Bytes) : Prop := 0 < t.length ∧ (t.length < 4 ∨ t.length < 4 + ofLeBytes t)

/-- Nothing, or a torn frame: where a reader of whole frames stops. -/
def Rest (t : Bytes) : Prop := t = [] ∨ Torn t

theorem rest_nil : Rest [] := Or.inl rfl

/-- A part of a frame is torn. -/
theorem rest_take {p : Bytes} {n : Nat} (h : Small p) (hn : n < (framed p).length) :
    Rest ((framed p).take n) := by
  rcases Nat.eq_zero_or_pos n with rfl | hpos
  · exact Or.inl rfl
  right
  have hlen : ((framed p).take n).length = n := List.length_take_of_le (Nat.le_of_lt hn)
  refine ⟨by rw [hlen]; exact hpos, ?_⟩
  rcases Nat.lt_or_ge n 4 with h4 | h4
  · exact Or.inl (by rw [hlen]; exact h4)
  -- the whole prefix is there, and it announces more than there is
  right
  have htake : (framed p).take n = toLeBytes p.length ++ p.take (n - 4) := by
    rw [framed, List.take_append, List.take_of_length_le (by rw [length_toLeBytes]; exact h4),
      length_toLeBytes]
  rw [htake, ofLeBytes_toLeBytes h, ← htake, hlen]
  rw [length_framed] at hn
  exact hn

/-- How many of the frames lie wholly within the first `n` bytes. -/
def fitting : List Bytes → Nat → Nat
  | [], _ => 0
  | p :: ps, n => if (framed p).length ≤ n then fitting ps (n - (framed p).length) + 1 else 0

/-- A file cut at `n` holds the frames that lie wholly before the cut, and nothing
else that could be taken for a frame. -/
theorem take_packed {ps : List Bytes} (h : ∀ p ∈ ps, Small p) (n : Nat) :
    ∃ tail, (packed ps).take n = packed (ps.take (fitting ps n)) ++ tail ∧ Rest tail := by
  induction ps generalizing n with
  | nil => exact ⟨[], by rw [packed_nil, List.take_nil]; rfl, rest_nil⟩
  | cons p ps ih =>
      rw [packed_cons, fitting]
      split
      · rename_i hp
        obtain ⟨tail, htail, hrest⟩ :=
          ih (fun q hq ↦ h q (List.mem_cons_of_mem p hq)) (n - (framed p).length)
        refine ⟨tail, ?_, hrest⟩
        rw [List.take_append, List.take_of_length_le hp, htail, List.take_succ_cons, packed_cons,
          List.append_assoc]
      · rename_i hp
        have hp : n < (framed p).length := Nat.lt_of_not_le hp
        refine ⟨(framed p).take n, ?_, rest_take (h p List.mem_cons_self) hp⟩
        rw [List.take_append_of_le_length (Nat.le_of_lt hp), List.take_zero, packed_nil,
          List.nil_append]

/-- Every string of bytes is a run of frames and a rest. -/
theorem exists_packed (data : Bytes) :
    ∃ ps tail, data = packed ps ++ tail ∧ Rest tail ∧ ∀ p ∈ ps, Small p := by
  -- on the length: a whole frame at the front is at least four bytes long
  induction hn : data.length using Nat.strongRecOn generalizing data with
  | ind n ih =>
      by_cases hrest : Rest data
      · exact ⟨[], data, rfl, hrest, fun p hp ↦ nomatch hp⟩
      have hlen : 4 ≤ data.length ∧ 4 + ofLeBytes data ≤ data.length := by
        simp only [Rest, Torn, not_or, not_and] at hrest
        have hpos : 0 < data.length := List.length_pos_iff.mpr hrest.1
        have := hrest.2 hpos
        omega
      set p := (data.drop 4).take (ofLeBytes data) with hp
      have hplen : p.length = ofLeBytes data := by
        rw [hp, List.length_take_of_le]
        rw [List.length_drop]
        omega
      have hfront : data = framed p ++ data.drop (4 + ofLeBytes data) := by
        rw [framed, hplen, toLeBytes_ofLeBytes hlen.1, hp, List.append_assoc, ← List.drop_drop,
          List.take_append_drop, List.take_append_drop]
      obtain ⟨ps, tail, heq, htail, hsmall⟩ :=
        ih (data.drop (4 + ofLeBytes data)).length
          (by rw [List.length_drop]; omega) (data.drop (4 + ofLeBytes data)) rfl
      refine ⟨p :: ps, tail, ?_, htail, ?_⟩
      · rw [packed_cons, List.append_assoc, ← heq]
        exact hfront
      · intro q hq
        rcases List.mem_cons.mp hq with hq | hq
        · rw [hq, Small, hplen]
          exact ofLeBytes_lt data
        · exact hsmall q hq

end Koalisi.Lib.Framing
