/-
# What the printed flags say

`open.c`, `mmap.c` and `mprotect.c` print a field of flags as names with a `|` between them.
This file reads such a field back, by the tables of the same names, and compares the bits with
those the printer was given.

The access mode of `open` is tested with `flags & O_RDONLY`, and `O_RDONLY` is 0, so every file
is shown as read only; a name of two bits is printed if one of them is set; the separator of
`print_prot` does not depend on what stands in front of it; `print_flags` of `mmap.c` prints
`MAP_SHARED` whenever `MAP_PRIVATE` is not set; and `print_mode` adds the three bits of a group
to the sum it starts that group with.  `fieldsReadBack_iff` says which values come out right.
-/
import Ftrace.Lib.Flags
import Ftrace.Syscalls.Printers

namespace Ftrace

open CText Flags

/-! ## 1. The names -/

/-- The access modes of `open`. -/
def accessNames : Names 32 :=
  [
    ("O_RDONLY".toList, O_RDONLY),
    ("O_WRONLY".toList, O_WRONLY),
    ("O_RDWR".toList, O_RDWR)
  ]

/-- The other flags of `open`, in the order in which they are printed. -/
def openFlagNames : Names 32 :=
  [
    ("O_APPEND".toList, O_APPEND),
    ("O_ASYNC".toList, O_ASYNC),
    ("O_CLOEXEC".toList, O_CLOEXEC),
    ("O_CREAT".toList, O_CREAT),
    ("O_DIRECTORY".toList, O_DIRECTORY),
    ("O_DSYNC".toList, O_DSYNC),
    ("O_EXCL".toList, O_EXCL),
    ("O_NOCTTY".toList, O_NOCTTY),
    ("O_NOFOLLOW".toList, O_NOFOLLOW),
    ("O_NONBLOCK".toList, O_NONBLOCK),
    ("O_SYNC".toList, O_SYNC),
    ("O_TRUNC".toList, O_TRUNC)
  ]

/-- The protections that have a bit. -/
def protBitNames : Names 32 :=
  [
    ("PROT_READ".toList, PROT_READ),
    ("PROT_WRITE".toList, PROT_WRITE),
    ("PROT_EXEC".toList, PROT_EXEC)
  ]

/-- The protections of `mmap` and `mprotect`. -/
def protNames : Names 32 := ("PROT_NONE".toList, 0) :: protBitNames

def MAP_SHARED : BitVec 32 := 0x01

/-- The kinds of mapping. -/
def sharingNames : Names 32 :=
  [
    ("MAP_SHARED".toList, MAP_SHARED),
    ("MAP_PRIVATE".toList, MAP_PRIVATE)
  ]

/-- The other flags of `mmap`, in the order in which they are printed. -/
def mapFlagNames : Names 32 :=
  [
    ("MAP_FIXED".toList, MAP_FIXED),
    ("MAP_32BIT".toList, MAP_32BIT),
    ("MAP_ANONYMOUS".toList, MAP_ANONYMOUS),
    ("MAP_DENYWRITE".toList, MAP_DENYWRITE),
    ("MAP_GROWSDOWN".toList, MAP_GROWSDOWN),
    ("MAP_HUGETLB".toList, MAP_HUGETLB),
    ("MAP_LOCKED".toList, MAP_LOCKED),
    ("MAP_NONBLOCK".toList, MAP_NONBLOCK),
    ("MAP_NORESERVE".toList, MAP_NORESERVE),
    ("MAP_POPULATE".toList, MAP_POPULATE),
    ("MAP_STACK".toList, MAP_STACK)
  ]

/-- The field `t` is a list of the names, from which all their bits in `v` are recovered. -/
def ReadsBack (names : Names 32) (t : Text) (v : Word) : Prop :=
  readField names t = some (toInt32 v &&& unionAll (names.map Prod.snd))

instance (names : Names 32) (t : Text) (v : Word) : Decidable (ReadsBack names t v) :=
  inferInstanceAs (Decidable (_ = _))

/-- The mode printed for `v` is the octal numeral of its low nine bits. -/
def ModeIsOctal (v : Word) : Prop :=
  printOpenMode (toInt32 v) = octal (toInt32 v &&& 0o777).toNat

instance (v : Word) : Decidable (ModeIsOctal v) := inferInstanceAs (Decidable (_ = _))

theorem wellNamed_open : WellNamed (accessNames ++ openFlagNames) :=
  ⟨by decide +kernel, by decide +kernel, by decide +kernel⟩

theorem wellNamed_prot : WellNamed protNames :=
  ⟨by decide +kernel, by decide +kernel, by decide +kernel⟩

theorem wellNamed_map : WellNamed (sharingNames ++ mapFlagNames) :=
  ⟨by decide +kernel, by decide +kernel, by decide +kernel⟩

/-! ## 2. The printed fields -/

/-- A run of tests of flags, each with the separator in its name. -/
theorem flatMap_printFlag (v : BitVec 32) (names : Names 32) :
    (names.flatMap fun p => printFlag v p.2 ('|' :: p.1)) =
      (names.filter (isSet v)).flatMap fun p => '|' :: p.1 := by
  induction names with
  | nil => rfl
  | cons p names ih =>
    rw [List.flatMap_cons, ih]
    by_cases hset : v &&& p.2 = 0
    · have hnot : isSet v p = false := decide_eq_false (not_not_intro hset)
      rw [List.filter_cons_of_neg (by rw [hnot]; exact Bool.false_ne_true), printFlag,
        if_neg (not_not_intro hset), List.nil_append]
    · have his : isSet v p = true := decide_eq_true hset
      rw [List.filter_cons_of_pos his, printFlag, if_pos hset, List.flatMap_cons]

/-- No file is opened for writing, as `print_flags` has it. -/
theorem printOpenFlags_eq (v : BitVec 32) :
    printOpenFlags v = joined "O_RDONLY".toList (openFlagNames.filter (isSet v)) := by
  have hro : v &&& O_RDONLY = 0 := BitVec.and_zero
  rw [joined, ← flatMap_printFlag, printOpenFlags, if_pos hro]
  simp only [printOpenFlags2, openFlagNames, List.flatMap_cons, List.flatMap_nil,
    List.append_nil, List.append_assoc]
  rfl

theorem printMapFlags_eq (v : BitVec 32) :
    printMapFlags v = joined
      (if v &&& MAP_PRIVATE ≠ 0 then "MAP_PRIVATE".toList else "MAP_SHARED".toList)
      (mapFlagNames.filter (isSet v)) := by
  rw [joined, ← flatMap_printFlag, printMapFlags]
  simp only [mapFlagNames, List.flatMap_cons, List.flatMap_nil, List.append_nil,
    List.append_assoc]
  rfl

/-- The first name of a protection is that of `PROT_READ`, or missing. -/
theorem protText_eq {v : BitVec 32} (h : v ≠ 0) :
    protText v = printFlag v PROT_READ "PROT_READ".toList ++
      (protBitNames.tail.filter (isSet v)).flatMap fun p => '|' :: p.1 := by
  rw [← flatMap_printFlag, protText, if_neg h]
  simp only [protBitNames, List.tail_cons, List.flatMap_cons, List.flatMap_nil, List.append_nil,
    List.append_assoc]
  rfl

/-! ## 3. Which of them read back -/

/-- A name of one bit is never printed for a part of it. -/
theorem whole_of_bits {names : Names 32}
    (h : ∀ p ∈ names, ∃ i < 32, p.2 = BitVec.twoPow 32 i) (v : BitVec 32) :
    ∀ p ∈ names, isSet v p = true → v &&& p.2 = p.2 :=
  fun p hp hs => and_bit (h p hp) (of_decide_eq_true hs)

/-- **The flags of `open` read back** only for a file that is read only, with both bits of
`O_SYNC` or none of them. -/
theorem openFlags_readBack_iff (v : Word) :
    ReadsBack (accessNames ++ openFlagNames) (printOpenFlags (toInt32 v)) v ↔
      toInt32 v &&& 3 = 0 ∧
        (toInt32 v &&& O_SYNC = 0 ∨ toInt32 v &&& O_SYNC = O_SYNC) := by
  have hmask : unionAll ((accessNames ++ openFlagNames).map Prod.snd)
      = 3 ||| unionAll (openFlagNames.map Prod.snd) := by decide
  have hfirst : ("O_RDONLY".toList, O_RDONLY) ∈ accessNames ++ openFlagNames := by decide +kernel
  have hbits : ∀ p ∈ openFlagNames, p.2 = O_SYNC ∨ ∃ i < 32, p.2 = BitVec.twoPow 32 i := by
    decide +kernel
  rw [ReadsBack, hmask, printOpenFlags_eq]
  refine (readField_eq_iff wellNamed_open hfirst
    (fun p hp => List.mem_append_right _ hp) (by decide) (by decide) (toInt32 v)).trans ?_
  refine and_congr eq_comm ⟨fun h => ?_, fun h p hp hs => ?_⟩
  · by_cases hsync : toInt32 v &&& O_SYNC = 0
    · exact .inl hsync
    · exact .inr (h ("O_SYNC".toList, O_SYNC) (by decide +kernel) (decide_eq_true hsync))
  · rcases hbits p hp with heq | hbit
    · rw [heq]
      exact h.resolve_left fun hz => of_decide_eq_true hs (heq ▸ hz)
    · exact and_bit hbit (of_decide_eq_true hs)

/-- Behind a kind of mapping, the flags read back if it is the kind of the value. -/
theorem map_readBack_of_first {first : Text × BitVec 32} (hfirst : first ∈ sharingNames)
    (v : Word) :
    ReadsBack (sharingNames ++ mapFlagNames)
        (joined first.1 (mapFlagNames.filter (isSet (toInt32 v)))) v ↔
      toInt32 v &&& 3 = first.2 := by
  have hmask : unionAll ((sharingNames ++ mapFlagNames).map Prod.snd)
      = 3 ||| unionAll (mapFlagNames.map Prod.snd) := by decide
  have hbits : ∀ p ∈ mapFlagNames, ∃ i < 32, p.2 = BitVec.twoPow 32 i := by decide +kernel
  have hkinds : ∀ p ∈ sharingNames, p.2 &&& 3 = p.2 := by decide +kernel
  rw [ReadsBack, hmask, readField_eq_iff wellNamed_map (List.mem_append_left _ hfirst)
    (fun p hp => List.mem_append_right _ hp) (hkinds first hfirst) (by decide)]
  exact ⟨fun h => h.1.symm, fun h => ⟨h.symm, whole_of_bits hbits _⟩⟩

/-- **The flags of `mmap` read back** if one of the two kinds is given and the other is
not. -/
theorem mapFlags_readBack_iff (v : Word) :
    ReadsBack (sharingNames ++ mapFlagNames) (printMapFlags (toInt32 v)) v ↔
      toInt32 v &&& 3 = MAP_SHARED ∨ toInt32 v &&& 3 = MAP_PRIVATE := by
  have hshared : ("MAP_SHARED".toList, MAP_SHARED) ∈ sharingNames := by decide +kernel
  have hprivate : ("MAP_PRIVATE".toList, MAP_PRIVATE) ∈ sharingNames := by decide +kernel
  -- the kind is the part of the value that `print_flags` tests
  have hkind : toInt32 v &&& MAP_PRIVATE = (toInt32 v &&& 3) &&& MAP_PRIVATE := by
    rw [BitVec.and_assoc]
    rfl
  rw [printMapFlags_eq]
  by_cases hp : toInt32 v &&& MAP_PRIVATE = 0
  · rw [if_neg (not_not_intro hp), map_readBack_of_first hshared]
    refine (or_iff_left ?_).symm
    intro h
    rw [hkind, h] at hp
    cases hp
  · rw [if_pos hp, map_readBack_of_first hprivate]
    refine (or_iff_right ?_).symm
    intro h
    rw [hkind, h] at hp
    exact hp rfl

/-- The protections that are set behind the first one. -/
theorem protTail_eq_nil_iff (v : BitVec 32) :
    protBitNames.tail.filter (isSet v) = [] ↔ v &&& PROT_WRITE = 0 ∧ v &&& PROT_EXEC = 0 := by
  simp [protBitNames, List.filter_eq_nil_iff, isSet]

/-- Without `PROT_READ` a field has no first name. -/
theorem prot_noRead_readBack_iff {v : Word} (hzero : toInt32 v ≠ 0)
    (hr : toInt32 v &&& PROT_READ = 0) :
    ReadsBack protNames (protText (toInt32 v)) v ↔
      toInt32 v &&& PROT_WRITE = 0 ∧ toInt32 v &&& PROT_EXEC = 0 := by
  rw [ReadsBack, protText_eq hzero, printFlag, if_neg (not_not_intro hr), List.nil_append,
    readField_flatMap wellNamed_prot, ← protTail_eq_nil_iff]
  by_cases htail : protBitNames.tail.filter (isSet (toInt32 v)) = []
  · obtain ⟨hw, hx⟩ := (protTail_eq_nil_iff _).mp htail
    have hnames : toInt32 v &&& unionAll (protNames.map Prod.snd) = 0 := by
      simp [protNames, protBitNames, BitVec.and_or_distrib_left, hr, hw, hx]
    rw [if_pos htail, hnames]
    exact iff_of_true rfl htail
  · rw [if_neg htail]
    exact iff_of_false (by simp) htail

/-- **A protection reads back** if it can be read, or has no bit with a name. -/
theorem prot_readBack_iff (v : Word) :
    ReadsBack protNames (protText (toInt32 v)) v ↔
      toInt32 v &&& PROT_READ ≠ 0 ∨
        toInt32 v &&& PROT_WRITE = 0 ∧ toInt32 v &&& PROT_EXEC = 0 := by
  by_cases hzero : toInt32 v = 0
  · have hnone : protText 0 = joined "PROT_NONE".toList ([] : Names 32) := by decide +kernel
    rw [ReadsBack, hzero, hnone,
      readField_names wellNamed_prot (List.mem_cons_self : _ ∈ protNames) (by simp)]
    decide +kernel
  by_cases hr : toInt32 v &&& PROT_READ = 0
  · rw [prot_noRead_readBack_iff hzero hr, or_iff_right (not_not_intro hr)]
  · have hmask : unionAll (protNames.map Prod.snd)
        = PROT_READ ||| unionAll (protBitNames.tail.map Prod.snd) := by decide
    have hfirst : ("PROT_READ".toList, PROT_READ) ∈ protNames := by decide +kernel
    have htail : ∀ p ∈ protBitNames.tail, p ∈ protNames := by decide +kernel
    have hbits : ∀ p ∈ protBitNames.tail, ∃ i < 32, p.2 = BitVec.twoPow 32 i := by decide +kernel
    have hread : toInt32 v &&& PROT_READ = PROT_READ := and_bit ⟨0, by decide, rfl⟩ hr
    rw [ReadsBack, hmask, protText_eq hzero, printFlag, if_pos hr]
    refine iff_of_true ?_ (.inl hr)
    exact (readField_eq_iff wellNamed_prot hfirst htail (by decide) (by decide)
      (toInt32 v)).mpr ⟨hread.symm, whole_of_bits hbits _⟩

/-- `print_mode` looks at nine bits. -/
theorem printOpenMode_and (mode : BitVec 32) :
    printOpenMode (mode &&& 0o777) = printOpenMode mode := by
  have hmask (m : BitVec 32) (hm : 0o777 &&& m = m) : (mode &&& 0o777) &&& m = mode &&& m := by
    rw [BitVec.and_assoc, hm]
  simp only [printOpenMode, hmask S_IRWXU rfl, hmask S_IRUSR rfl, hmask S_IWUSR rfl,
    hmask S_IXUSR rfl, hmask S_IRWXG rfl, hmask S_IRGRP rfl, hmask S_IWGRP rfl,
    hmask S_IXGRP rfl, hmask S_IRWXO rfl, hmask S_IROTH rfl, hmask S_IWOTH rfl, hmask S_IXOTH rfl]

/-- **A mode is an octal numeral** only if none of its bits is set. -/
theorem modeIsOctal_iff (v : Word) : ModeIsOctal v ↔ toInt32 v &&& 0o777 = 0 := by
  -- what is printed depends on 512 values, and is right for one
  have hall : ∀ i < 512, printOpenMode (BitVec.ofNat 32 i) = octal i ↔ i = 0 := by
    decide +kernel
  have hlt : (toInt32 v &&& 0o777).toNat < 512 := by
    rw [BitVec.toNat_and]
    exact Nat.lt_succ_of_le Nat.and_le_right
  have hmode := hall _ hlt
  rw [BitVec.ofNat_toNat, BitVec.setWidth_eq, printOpenMode_and] at hmode
  rw [ModeIsOctal, hmode, BitVec.toNat_eq]
  rfl

/-- **The printed fields read back** for these values, and for no others: of the flags of
`open`, of a protection in either printer, of the flags of `mmap`, and of a mode. -/
theorem fieldsReadBack_iff (flags prot mapFlags mode : Word) :
    (ReadsBack (accessNames ++ openFlagNames) (printOpenFlags (toInt32 flags)) flags ↔
      toInt32 flags &&& 3 = 0 ∧
        (toInt32 flags &&& O_SYNC = 0 ∨ toInt32 flags &&& O_SYNC = O_SYNC)) ∧
    (ReadsBack protNames (printProto (toInt32 prot)) prot ↔
      toInt32 prot &&& PROT_READ ≠ 0 ∨
        toInt32 prot &&& PROT_WRITE = 0 ∧ toInt32 prot &&& PROT_EXEC = 0) ∧
    (ReadsBack protNames (printProt (toInt32 prot)) prot ↔
      toInt32 prot &&& PROT_READ ≠ 0 ∨
        toInt32 prot &&& PROT_WRITE = 0 ∧ toInt32 prot &&& PROT_EXEC = 0) ∧
    (ReadsBack (sharingNames ++ mapFlagNames) (printMapFlags (toInt32 mapFlags)) mapFlags ↔
      toInt32 mapFlags &&& 3 = MAP_SHARED ∨ toInt32 mapFlags &&& 3 = MAP_PRIVATE) ∧
    (ModeIsOctal mode ↔ toInt32 mode &&& 0o777 = 0) :=
  ⟨openFlags_readBack_iff flags, prot_readBack_iff prot, prot_readBack_iff prot,
    mapFlags_readBack_iff mapFlags, modeIsOctal_iff mode⟩

/-- A file opened for writing is shown as read only, memory that can be written gets a
separator in front, a mapping of no kind is shown as shared, and the mode 644 as 11. -/
theorem fieldsReadBack_fails :
    printOpenFlags (toInt32 1) = "O_RDONLY".toList ∧
      ¬ ReadsBack (accessNames ++ openFlagNames) (printOpenFlags (toInt32 1)) 1 ∧
    printProt (toInt32 2) = "|PROT_WRITE".toList ∧
      ¬ ReadsBack protNames (printProt (toInt32 2)) 2 ∧
    printMapFlags (toInt32 0x20) = "MAP_SHARED|MAP_ANONYMOUS".toList ∧
      ¬ ReadsBack (sharingNames ++ mapFlagNames) (printMapFlags (toInt32 0x20)) 0x20 ∧
    printOpenMode (toInt32 0o644) = "11".toList ∧ ¬ ModeIsOctal 0o644 := by
  decide +kernel

end Ftrace
