/-
# Records laid out in an image

A file format is a layout: records of fields of fixed width, arrays of such records, and byte
strings, each at an offset that some other field gives.  `Image.Holds img o bs` says that the
bytes `bs` stand at the offset `o`; a record that an image holds holds its fields
(`Holds.field_of_record`), an array its elements (`Holds.elem`), and a field is read as the
number that was laid out (`Holds.read_field`).

Nothing is said of how the parts lie to each other: they may come in any order, with anything
between them, or overlap.
-/
import Ftrace.Lib.Mapped

namespace Bytes

/-- A number in `n` bytes, the low one first. -/
def leBytes : ℕ → ℕ → List (BitVec 8)
  | 0, _ => []
  | n + 1, v => BitVec.ofNat 8 v :: leBytes n (v / 256)

@[simp] theorem length_leBytes (n v : ℕ) : (leBytes n v).length = n := by
  induction n generalizing v with
  | zero => rfl
  | succ n ih => rw [leBytes, List.length_cons, ih]

/-- **A number that fits is what its bytes make.** -/
theorem leNat_leBytes {n v : ℕ} (h : v < 256 ^ n) : leNat (leBytes n v) = v := by
  induction n generalizing v with
  | zero =>
    rw [Nat.pow_zero, Nat.lt_one_iff] at h
    rw [h]
    rfl
  | succ n ih =>
    have hdiv : v / 256 < 256 ^ n := by
      rw [Nat.pow_succ] at h
      omega
    rw [leBytes, leNat, ih hdiv, BitVec.toNat_ofNat]
    omega

end Bytes

namespace Mapped

open Bytes

/-- A field of a record: its width, and its value. -/
abbrev Field : Type := ℕ × ℕ

/-- A record, field after field. -/
def record (fs : List Field) : List (BitVec 8) := fs.flatMap fun f => leBytes f.1 f.2

/-- Where a field of a record is. -/
def fieldOffset (fs : List Field) (i : ℕ) : ℕ := ((fs.take i).map Prod.fst).sum

theorem length_record (fs : List Field) : (record fs).length = (fs.map Prod.fst).sum := by
  simp [record, List.length_flatMap]

namespace Image

variable {img : Image}

/-- The bytes stand at the offset. -/
def Holds (img : Image) (o : ℕ) (bs : List (BitVec 8)) : Prop :=
  ∃ pre post, img.bytes = pre ++ (bs ++ post) ∧ pre.length = o

/-- **What an image holds can be looked up in it.** -/
theorem holds_iff {o : ℕ} {bs : List (BitVec 8)} :
    img.Holds o bs ↔ o + bs.length ≤ img.bytes.length ∧ (img.bytes.drop o).take bs.length = bs := by
  constructor
  · rintro ⟨pre, post, hbytes, rfl⟩
    rw [hbytes]
    refine ⟨?_, ?_⟩
    · simp only [List.length_append]
      omega
    · rw [List.drop_left, List.take_left]
  · rintro ⟨hle, htake⟩
    refine ⟨img.bytes.take o, img.bytes.drop (o + bs.length), ?_, ?_⟩
    · conv_lhs => rw [← List.take_append_drop o img.bytes,
        ← List.take_append_drop bs.length (img.bytes.drop o), htake, List.drop_drop]
    · rw [List.length_take]
      omega

instance (o : ℕ) (bs : List (BitVec 8)) : Decidable (img.Holds o bs) :=
  decidable_of_iff _ holds_iff.symm

namespace Holds

variable {o : ℕ} {bs cs : List (BitVec 8)}

theorem le_length (h : img.Holds o bs) : o + bs.length ≤ img.bytes.length := (holds_iff.mp h).1

theorem left (h : img.Holds o (bs ++ cs)) : img.Holds o bs := by
  obtain ⟨pre, post, hbytes, hpre⟩ := h
  exact ⟨pre, cs ++ post, by rw [hbytes, List.append_assoc], hpre⟩

theorem right (h : img.Holds o (bs ++ cs)) : img.Holds (o + bs.length) cs := by
  obtain ⟨pre, post, hbytes, hpre⟩ := h
  exact ⟨pre ++ bs, post, by rw [hbytes, List.append_assoc, List.append_assoc],
    by rw [List.length_append, hpre]⟩

/-- The bytes from the offset on start with what is held there. -/
theorem drop_eq (h : img.Holds o bs) : ∃ post, img.bytes.drop o = bs ++ post := by
  obtain ⟨pre, post, hbytes, rfl⟩ := h
  exact ⟨post, by rw [hbytes, List.drop_left]⟩

/-- **A number that is held is read.** -/
theorem read {p : BitVec 64} {n v : ℕ} (h : img.Holds o (leBytes n v)) (hv : v < 256 ^ n)
    (hp : img.off p = o) : img.Has p n ∧ img.field p n = v := by
  obtain ⟨hle, htake⟩ := holds_iff.mp h
  rw [length_leBytes] at hle htake
  have hin : img.off p + n ≤ img.bytes.length := by rwa [hp]
  refine ⟨has_of_le hin, ?_⟩
  rw [field_of_le hin, hp, htake, leNat_leBytes hv]

/-- **A field of a record.** -/
theorem field_of_record {fs : List Field} (h : img.Holds o (record fs)) {i : ℕ} {f : Field}
    (hf : fs[i]? = some f) : img.Holds (o + fieldOffset fs i) (leBytes f.1 f.2) := by
  obtain ⟨hi, rfl⟩ := List.getElem?_eq_some_iff.mp hf
  have hlist : fs = fs.take i ++ fs[i] :: fs.drop (i + 1) := by
    rw [← List.drop_eq_getElem_cons hi, List.take_append_drop]
  have hsplit : record fs = record (fs.take i) ++ (leBytes fs[i].1 fs[i].2 ++
      record (fs.drop (i + 1))) :=
    calc record fs = record (fs.take i ++ fs[i] :: fs.drop (i + 1)) := congrArg record hlist
      _ = _ := by rw [record, List.flatMap_append, List.flatMap_cons]; rfl
  rw [hsplit] at h
  have hfield := h.right.left
  rwa [length_record] at hfield

/-- **An element of an array.** -/
theorem elem {α : Type} {enc : α → List (BitVec 8)} {k : ℕ} (hlen : ∀ x, (enc x).length = k)
    {xs : List α} (h : img.Holds o (xs.flatMap enc)) {i : ℕ} {x : α} (hx : xs[i]? = some x) :
    img.Holds (o + k * i) (enc x) := by
  induction xs generalizing o i with
  | nil => cases hx
  | cons y xs ih =>
    rw [List.flatMap_cons] at h
    cases i with
    | zero =>
      obtain rfl := Option.some.inj hx
      exact h.left
    | succ i =>
      have hrest := ih h.right hx
      rw [hlen] at hrest
      rwa [Nat.mul_succ, Nat.add_comm (k * i), ← Nat.add_assoc]

end Holds

theorem off_base (img : Image) : img.off img.base = 0 := by
  rw [Image.off, BitVec.sub_self]
  rfl

section Holds

variable {o d : ℕ} {bs : List (BitVec 8)} {p : BitVec 64}

/-- A pointer moved on to where something is held. -/
theorem Holds.off_add (h : img.Holds (o + d) bs) (hp : img.off p = o) :
    img.off (p + BitVec.ofNat 64 d) = o + d := by
  have hle := h.le_length
  have hplaced := img.placed.2
  rw [Image.off_add (by rw [hp]; omega), hp]

/-- **A field of the record that a pointer points to is read.** -/
theorem Holds.read_field {fs : List Field} (h : img.Holds o (record fs)) (hp : img.off p = o)
    {i n v : ℕ} (hf : fs[i]? = some (n, v)) (hv : v < 256 ^ n) :
    img.Has (p + BitVec.ofNat 64 (fieldOffset fs i)) n ∧
      img.field (p + BitVec.ofNat 64 (fieldOffset fs i)) n = v := by
  have hfield := h.field_of_record hf
  exact hfield.read hv (hfield.off_add hp)

end Holds

/-- A pointer into the image is not beyond its end. -/
theorem not_beyond {p : BitVec 64} (h : img.off p ≤ img.bytes.length) : img.beyond p = false := by
  have hplaced := img.placed.2
  have hp : p.toNat < 2 ^ 64 := p.isLt
  have hoff : img.off p = (2 ^ 64 - img.base.toNat + p.toNat) % 2 ^ 64 := BitVec.toNat_sub p img.base
  rw [Image.beyond, decide_eq_false_iff_not, BitVec.lt_def, Image.toNat_endp]
  omega

end Image

end Mapped
