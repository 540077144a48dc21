/-
# Memory-mapped files

A file is mapped at a base address, and there may be other memory around it
(`Image.around`): behind the file the rest of its last page, which is zero (`Image.Paged`), and
whatever else the process has there.  A read takes a pointer and a number of bytes, and fails when
one of them is not in memory.

For a program that computes pointers out of numbers it finds in the file, "no access leaves the
file" is what memory safety means.  To find such an access out the file is taken alone, with
nothing around it (`Image.alone`): then exactly the reads inside the file succeed (`has_alone`).

Pointer arithmetic is that of 64-bit words and wraps around; a file lies in the lower half of the
address space, well below the wrap (`Image.placed`).  A program that guards its reads by comparing
a pointer with the end of the file asks `Image.beyond`, and a pointer that is not beyond the end
need not be inside: it may be the end itself, or lie below the base.
-/
import Ftrace.Lib.Bytes

namespace Mapped

open Bytes

/-! ## Less is known -/

/-- The second comes to what the first does, if that comes to anything. -/
def Below {α : Type} (x y : Option α) : Prop := ∀ a, x = some a → y = some a

namespace Below

variable {α β : Type} {x y : Option α}

theorem refl (x : Option α) : Below x x := fun _ h => h

theorem bind (h : Below x y) {f g : α → Option β} (hf : ∀ a, Below (f a) (g a)) :
    Below (x.bind f) (y.bind g) := by
  intro b hb
  obtain ⟨a, ha, hfa⟩ := Option.bind_eq_some_iff.mp hb
  rw [h a ha, Option.bind_some]
  exact hf a b hfa

theorem map (h : Below x y) (f : α → β) : Below (x.map f) (y.map f) := by
  rw [Option.map_eq_bind, Option.map_eq_bind]
  exact h.bind fun _ => refl _

theorem ite {c : Prop} [Decidable c] {x' y' : Option α} (h : Below x y) (h' : Below x' y') :
    Below (if c then x else x') (if c then y else y') := by
  by_cases hc : c
  · rw [if_pos hc, if_pos hc]
    exact h
  · rw [if_neg hc, if_neg hc]
    exact h'

/-- Where the first comes to something they are the same. -/
theorem eq_of_isSome (h : Below x y) (hx : x.isSome) : y = x := by
  obtain ⟨a, ha⟩ := Option.isSome_iff_exists.mp hx
  rw [ha]
  exact h a ha

end Below

/-! ## The file and its bytes -/

def PAGE_SIZE : ℕ := 4096

/-- A length, up to the end of its last page. -/
def pageUp (n : ℕ) : ℕ := (n + (PAGE_SIZE - 1)) / PAGE_SIZE * PAGE_SIZE

theorem pageUp_le (n : ℕ) : pageUp n ≤ n + 4095 := by
  simp only [pageUp, PAGE_SIZE]
  omega

/-- A mapped file: its bytes, where they are, and what is in the memory around them. -/
structure Image where
  base : BitVec 64
  bytes : List (BitVec 8)
  around : BitVec 64 → Option (BitVec 8)
  /-- User memory is not at the null address, and ends below 2^47. -/
  placed : 0 < base.toNat ∧ base.toNat + bytes.length ≤ 2 ^ 47

namespace Image

/-- A mapped file with nothing but the rest of its last page around it. -/
def ofFile (base : BitVec 64) (bytes : List (BitVec 8))
    (placed : 0 < base.toNat ∧ base.toNat + bytes.length ≤ 2 ^ 47) : Image where
  base := base
  bytes := bytes
  around p := if (p - base).toNat < pageUp bytes.length then some 0 else none
  placed := placed

variable (img : Image)

/-- The address after the last byte. -/
def endp : BitVec 64 := img.base + BitVec.ofNat 64 img.bytes.length

/-- The offset of a pointer into the file. -/
def off (p : BitVec 64) : ℕ := (p - img.base).toNat

/-- The byte at an address, if there is memory. -/
def byteAt (p : BitVec 64) : Option (BitVec 8) := (img.bytes[img.off p]?).or (img.around p)

/-- The `n` bytes at `p`. -/
def bytesAt : BitVec 64 → ℕ → Option (List (BitVec 8))
  | _, 0 => some []
  | p, n + 1 => do
    let b ← img.byteAt p
    let bs ← bytesAt (p + 1) n
    some (b :: bs)

/-- The `n` bytes at `p` are all in memory. -/
def Has (p : BitVec 64) (n : ℕ) : Prop := (img.bytesAt p n).isSome

instance (p : BitVec 64) (n : ℕ) : Decidable (img.Has p n) := inferInstanceAs (Decidable (_ = _))

/-- The little-endian number in the `n` bytes at `p`. -/
def field (p : BitVec 64) (n : ℕ) : ℕ := leNat ((img.bytesAt p n).getD [])

/-- A read of `n` bytes at `p`: `none` when they are not all in memory. -/
def read (p : BitVec 64) (n : ℕ) : Option ℕ := (img.bytesAt p n).map leNat

/-- The pointer is greater than the end of the file. -/
def beyond (p : BitVec 64) : Bool := img.endp < p

/-- The rest of the last page of the file is zero, as `mmap` leaves it. -/
def Paged : Prop :=
  ∀ p, img.bytes.length ≤ img.off p → img.off p < pageUp img.bytes.length → img.around p = some 0

/-- The file with nothing around it. -/
def alone : Image := { img with around := fun _ => none }

theorem paged_ofFile (base : BitVec 64) (bytes : List (BitVec 8))
    (placed : 0 < base.toNat ∧ base.toNat + bytes.length ≤ 2 ^ 47) :
    (ofFile base bytes placed).Paged := fun _ _ h => if_pos h

theorem toNat_endp : img.endp.toNat = img.base.toNat + img.bytes.length := by
  have h := img.placed.2
  have hlen : img.bytes.length < 2 ^ 64 := by omega
  rw [endp, BitVec.toNat_add, BitVec.toNat_ofNat, Nat.mod_eq_of_lt hlen, Nat.mod_eq_of_lt (by omega)]

/-! ## Reads -/

theorem read_eq_some {p : BitVec 64} {n : ℕ} (h : img.Has p n) :
    img.read p n = some (img.field p n) := by
  obtain ⟨bs, hbs⟩ := Option.isSome_iff_exists.mp h
  rw [read, field, hbs]
  rfl

/-- What is read is the number that is there. -/
theorem field_of_read {p : BitVec 64} {n v : ℕ} (h : img.read p n = some v) :
    img.field p n = v := by
  obtain ⟨bs, hbs, hv⟩ := Option.map_eq_some_iff.mp h
  rw [field, hbs]
  exact hv

theorem read_eq_none {p : BitVec 64} {n : ℕ} (h : ¬ img.Has p n) : img.read p n = none := by
  rw [read, Option.not_isSome_iff_eq_none.mp h]
  rfl

/-- What is done with a read comes to something exactly if the read does, and it is done with the
number that is read. -/
theorem isSome_read_bind {α : Type} {p : BitVec 64} {n : ℕ} {f : ℕ → Option α} :
    ((img.read p n).bind f).isSome ↔ img.Has p n ∧ (f (img.field p n)).isSome := by
  by_cases h : img.Has p n
  · rw [read_eq_some img h, Option.bind_some, and_iff_right h]
  · rw [read_eq_none img h]
    exact iff_of_false (by simp) fun hc => h hc.1

variable {img}

/-- A pointer further on. -/
theorem off_add {p : BitVec 64} {n : ℕ} (h : img.off p + n < 2 ^ 64) :
    img.off (p + BitVec.ofNat 64 n) = img.off p + n := by
  unfold off at h ⊢
  have hassoc : p + BitVec.ofNat 64 n - img.base = p - img.base + BitVec.ofNat 64 n := by
    rw [add_sub_right_comm]
  rw [hassoc, BitVec.toNat_add, BitVec.toNat_ofNat]
  omega

/-- The next address. -/
theorem off_succ {p : BitVec 64} (h : img.off p + 1 < 2 ^ 64) : img.off (p + 1) = img.off p + 1 :=
  off_add h

theorem bytesAt_succ {p : BitVec 64} {n : ℕ} {bs : List (BitVec 8)}
    (h : img.bytesAt p (n + 1) = some bs) :
    ∃ b bs', img.byteAt p = some b ∧ img.bytesAt (p + 1) n = some bs' ∧ bs = b :: bs' := by
  obtain ⟨b, hb, h⟩ := Option.bind_eq_some_iff.mp h
  obtain ⟨bs', hbs', h⟩ := Option.bind_eq_some_iff.mp h
  exact ⟨b, bs', hb, hbs', (Option.some.inj h).symm⟩

/-- **Inside the file the bytes are those of the file.** -/
theorem bytesAt_of_le {p : BitVec 64} {n : ℕ} (h : img.off p + n ≤ img.bytes.length) :
    img.bytesAt p n = some ((img.bytes.drop (img.off p)).take n) := by
  have hplaced := img.placed.2
  induction n generalizing p with
  | zero => rfl
  | succ n ih =>
    have hlt : img.off p < img.bytes.length := by omega
    have hnext : img.off (p + 1) = img.off p + 1 := off_succ (by omega)
    have hbyte : img.byteAt p = some img.bytes[img.off p] := by
      rw [byteAt, List.getElem?_eq_getElem hlt, Option.some_or]
    have hrest := ih (p := p + 1) (by omega)
    rw [bytesAt, hbyte, hrest, hnext, List.drop_eq_getElem_cons hlt, List.take_succ_cons]
    rfl

theorem has_of_le {p : BitVec 64} {n : ℕ} (h : img.off p + n ≤ img.bytes.length) :
    img.Has p n := by
  rw [Has, bytesAt_of_le h]
  rfl

theorem field_of_le {p : BitVec 64} {n : ℕ} (h : img.off p + n ≤ img.bytes.length) :
    img.field p n = leNat ((img.bytes.drop (img.off p)).take n) := by
  rw [field, bytesAt_of_le h]
  rfl

/-- A byte of a file alone is one of the file. -/
theorem lt_of_byteAt_alone {p : BitVec 64} {b : BitVec 8} (h : img.alone.byteAt p = some b) :
    img.off p < img.bytes.length := by
  have hbyte : img.alone.byteAt p = img.bytes[img.off p]? := Option.or_none
  rw [hbyte] at h
  exact (List.getElem?_eq_some_iff.mp h).1

/-- **Of a file alone exactly the reads inside it succeed.** -/
theorem has_alone {p : BitVec 64} {n : ℕ} (hn : 0 < n) :
    img.alone.Has p n ↔ img.off p + n ≤ img.bytes.length := by
  refine ⟨?_, fun h => @has_of_le img.alone p n h⟩
  have hplaced := img.placed.2
  induction n, hn using Nat.le_induction generalizing p with
  | base =>
    intro h
    obtain ⟨bs, hbs⟩ := Option.isSome_iff_exists.mp h
    obtain ⟨b, -, hb, -, -⟩ := bytesAt_succ hbs
    exact lt_of_byteAt_alone hb
  | succ n hn ih =>
    intro h
    obtain ⟨bs, hbs⟩ := Option.isSome_iff_exists.mp h
    obtain ⟨b, bs', hb, hbs', -⟩ := bytesAt_succ hbs
    have hlt := lt_of_byteAt_alone hb
    have hrest := ih (p := p + 1) (by rw [Has, hbs']; rfl)
    rw [off_succ (by omega)] at hrest
    omega

/-- **What is read of a file alone is read whatever is around it.** -/
theorem read_alone_below (img : Image) (p : BitVec 64) (n : ℕ) :
    Below (img.alone.read p n) (img.read p n) := by
  refine .map ?_ leNat
  induction n generalizing p with
  | zero => exact .refl _
  | succ n ih =>
    refine .bind ?_ fun b => .bind (ih (p + 1)) fun _ => .refl _
    intro b hb
    have hfile : img.alone.byteAt p = img.bytes[img.off p]? := Option.or_none
    rw [Image.byteAt, ← hfile, hb, Option.some_or]

/-- **The rest of the last page can be read.** -/
theorem Paged.has (h : img.Paged) {p : BitVec 64} {n : ℕ}
    (hn : img.off p + n ≤ pageUp img.bytes.length) : img.Has p n := by
  have hplaced := img.placed.2
  have hpage := pageUp_le img.bytes.length
  induction n generalizing p with
  | zero => rfl
  | succ n ih =>
    have hnext : img.off (p + 1) = img.off p + 1 := off_succ (by omega)
    obtain ⟨bs, hbs⟩ := Option.isSome_iff_exists.mp (ih (p := p + 1) (by omega))
    have hbyte : (img.byteAt p).isSome = true := by
      by_cases hlt : img.off p < img.bytes.length
      · rw [byteAt, List.getElem?_eq_getElem hlt]
        rfl
      · rw [byteAt, h p (by omega) (by omega), Option.isSome_or, Option.isSome_some,
          Bool.or_true]
    obtain ⟨b, hb⟩ := Option.isSome_iff_exists.mp hbyte
    rw [Has, bytesAt, hb, hbs]
    rfl

/-! ## Pointers -/

variable (img)

/-- The pointer is neither into the file nor the end of it. -/
def Outside (p : BitVec 64) : Prop := img.bytes.length < img.off p

/-- A pointer outside is greater than the end, or below the base. -/
theorem outside_iff (p : BitVec 64) : img.Outside p ↔ p < img.base ∨ img.beyond p = true := by
  have hp : p.toNat < 2 ^ 64 := p.isLt
  have hplaced := img.placed
  have hoff : img.off p = (2 ^ 64 - img.base.toNat + p.toNat) % 2 ^ 64 := BitVec.toNat_sub p img.base
  rw [Outside, hoff, beyond, decide_eq_true_eq, BitVec.lt_def, BitVec.lt_def, toNat_endp]
  omega

/-- A pointer at an offset from the base. -/
theorem off_base_add (o : BitVec 64) : img.off (img.base + o) = o.toNat := by
  rw [off, add_sub_cancel_left]

end Image

/-! ## Scans that stop

A scan over `0, 1, …` that gives up at the first element that does not pass looks at an
element only if all before it passed. -/

/-- `B` holds of each of the first `n` elements whose predecessors all pass. -/
def UpTo (P B : ℕ → Prop) (n : ℕ) : Prop := ∀ i < n, (∀ j < i, P j) → B i

theorem upTo_zero (P B : ℕ → Prop) : UpTo P B 0 := fun i hi => absurd hi (Nat.not_lt_zero i)

/-- The first element, and the scan that goes on if it passes. -/
theorem upTo_succ (P B : ℕ → Prop) (n : ℕ) :
    UpTo P B (n + 1) ↔ B 0 ∧ (P 0 → UpTo (fun i => P (i + 1)) (fun i => B (i + 1)) n) := by
  constructor
  · intro h
    refine ⟨h 0 (Nat.succ_pos n) fun j hj => absurd hj (Nat.not_lt_zero j), fun h0 i hi hall => ?_⟩
    refine h (i + 1) (Nat.succ_lt_succ hi) ?_
    intro j hj
    cases j with
    | zero => exact h0
    | succ j => exact hall j (Nat.lt_of_succ_lt_succ hj)
  · rintro ⟨h0, hrest⟩ i hi hall
    cases i with
    | zero => exact h0
    | succ i =>
      refine hrest (hall 0 (Nat.succ_pos i)) i (Nat.lt_of_succ_lt_succ hi) ?_
      intro j hj
      exact hall (j + 1) (Nat.succ_lt_succ hj)

end Mapped
