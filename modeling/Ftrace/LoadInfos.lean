/-
# Loading the traced file

`parse_elf.c` and `load_infos.c`: the file behind `/proc/<pid>/exe` is opened, sized, mapped
and checked before the trace starts.

A failure travels up as a number, and each caller compares it with `FAILURE`.  Two of the
functions make the number as `dprintf (2, "%s", MSG) - sizeof (MSG) + FAILURE`, taking
`dprintf` to return `sizeof (MSG)`; it returns one less (`errorValue_ne_failure`).

The outcomes of the system calls are given (`LoadEnv`); what `mmap` maps has zeros behind its end,
to the end of the page, and `parse_file` reads them like the file.  The failure callback is
`stop_son` or `detach_process`; both return `FAILURE`, and its calls are counted.
-/
import Ftrace.GetSymbols
import Ftrace.TypeInstruction

namespace Ftrace

open CText Bytes Mapped

/-! ## 1. Error values -/

def ERR_ELF_HEADER : Text := "Error : Header elf is invalid.\n".toList
def ERR_ELF32 : Text := "Error : Elf format 32 bits is not supported.\n".toList
def ERR_UNDEFCLASS_ELF : Text := "Error : Elf format is unknown.\n".toList
def MMAP_FAILED : Text := "Error : mmap failed.\n".toList

/-- What `dprintf (2, "%s", msg)` returns: the length, or a negative number. -/
def dprintfErr (stderr : Bool) (msg : Text) : ℤ := if stderr then msg.length else -1

/-- `dprintf (2, "%s", msg) - sizeof (msg) + FAILURE`, computed as a `size_t` and returned as
an `int`. -/
def errorValue (stderr : Bool) (msg : Text) : ℤ :=
  (BitVec.ofInt 32 (dprintfErr stderr msg - (msg.length + 1) + FAILURE)).toInt

/-! ## 2. `check_header` and `parse_file` -/

def ET_EXEC : ℕ := 2
def ELFCLASS32 : ℕ := 1
def ELFCLASS64 : ℕ := 2

/-- `ELFMAG0` … `ELFMAG3`, as the number the four bytes make. -/
def ELFMAG : ℕ := 0x464C457F

/-- `e_ident`, `e_ident[EI_CLASS]` and `e_type`. -/
def eIdent (img : Image) : Word := img.base
def eClass (img : Image) : Word := img.base + 4
def eType (img : Image) : Word := img.base + 16

/-- `check_header`. -/
def checkHeader (img : Image) (stderr : Bool) : Option ℤ :=
  if img.bytes.length < EHDR_SIZE then some (errorValue stderr ERR_ELF_HEADER)
  else do
    let mag ← img.read (eIdent img) 4
    if mag ≠ ELFMAG then some (errorValue stderr ERR_ELF_HEADER)
    else do
      let type ← img.read (eType img) 2
      if type ≠ ET_EXEC then some (errorValue stderr ERR_ELF_HEADER)
      else do
        let elfClass ← img.read (eClass img) 1
        if elfClass = ELFCLASS32 then some (errorValue stderr ERR_ELF32)
        else if elfClass ≠ ELFCLASS64 then some (errorValue stderr ERR_UNDEFCLASS_ELF)
        else some SUCCESS

/-- A result, and the calls made of the failure callback. -/
structure Outcome where
  code : ℤ
  calls : ℕ
  deriving DecidableEq, Repr

/-- `return (fct ())`. -/
def Outcome.callback (calls : ℕ) : Outcome := ⟨FAILURE, calls + 1⟩

/-- `parse_file (infos, fct)`. -/
def parseFile (img : Image) (stderr : Bool) : Option Outcome := do
  let header ← checkHeader img stderr
  if header = FAILURE then some (.callback 0)
  else do
    let shoff ← img.read (eShoff img) 8
    let shdr := advance img.base shoff
    if img.beyond shdr then some (.callback 0)
    else do
      let shstrndx ← img.read (eShstrndx img) 2
      let str ← img.read (shOffset (shdrAt shdr shstrndx)) 8
      if img.beyond (advance img.base str) then some (.callback 0)
      else some ⟨SUCCESS, 0⟩

/-! ## 3. `load_file` and `load_infos` -/

/-- The outcomes of the system calls: the two `asprintf`s, `open`, `lseek`, `mmap`, and whether
messages can be written. -/
structure LoadEnv where
  paths : Bool
  opened : Bool
  sized : Bool
  mapped : Option Image
  paged : ∀ img ∈ mapped, img.Paged
  stderr : Bool

/-- `load_file (infos, fct)`. -/
def loadFile (env : LoadEnv) : Option Outcome :=
  if env.opened = false then some ⟨FAILURE, 0⟩
  else if env.sized = false then some ⟨FAILURE, 0⟩
  else match env.mapped with
    | none => some ⟨errorValue env.stderr MMAP_FAILED, 0⟩
    | some img => parseFile img env.stderr

/-- `load_infos (infos, fct_failed)`. -/
def loadInfos (env : LoadEnv) : Option Outcome :=
  if env.paths = false then some (.callback 0)
  else do
    let r ← loadFile env
    if r.code = FAILURE then some (.callback r.calls) else some ⟨SUCCESS, r.calls⟩

/-! ## 4. No check of the header fails -/

/-- The arithmetic on the length of a message comes out below `FAILURE`. -/
theorem errorValue_lt_failure {msg : Text} (hmsg : msg.length < 1000) (stderr : Bool) :
    errorValue stderr msg < FAILURE := by
  cases stderr with
  | true =>
    have h : dprintfErr true msg - (msg.length + 1) + FAILURE = -2 := by
      simp only [dprintfErr, FAILURE, if_true]
      omega
    rw [errorValue, h]
    decide
  | false =>
    have h : dprintfErr false msg - (msg.length + 1) + FAILURE = -((msg.length : ℤ) + 3) := by
      simp only [dprintfErr, FAILURE, Bool.false_eq_true, if_false]
      omega
    rw [errorValue, h, BitVec.toInt_ofInt, FAILURE, Int.bmod_def]
    split <;> omega

/-- So it is not `FAILURE`. -/
theorem errorValue_ne_failure {msg : Text} (hmsg : msg.length < 1000) (stderr : Bool) :
    errorValue stderr msg ≠ FAILURE := (errorValue_lt_failure hmsg stderr).ne

/-- Nor is it `SUCCESS`. -/
theorem errorValue_ne_success {msg : Text} (hmsg : msg.length < 1000) (stderr : Bool) :
    errorValue stderr msg ≠ SUCCESS :=
  ((errorValue_lt_failure hmsg stderr).trans (by decide)).ne

/-- The fields of the header lie in an image that has room for it. -/
theorem has_header {img : Image} (h : EHDR_SIZE ≤ img.bytes.length) {o n : ℕ} (ho : o < 2 ^ 64)
    (hon : o + n ≤ EHDR_SIZE) : img.Has (img.base + BitVec.ofNat 64 o) n := by
  have hoff : img.off (img.base + BitVec.ofNat 64 o) = o := by
    rw [img.off_base_add, BitVec.toNat_ofNat, Nat.mod_eq_of_lt ho]
  refine Image.has_of_le ?_
  rw [hoff]
  omega

/-- **`check_header` never reports a failure**: it stays inside the file, and what it returns
is not `FAILURE`. -/
theorem checkHeader_passes (img : Image) (stderr : Bool) :
    ∃ c, checkHeader img stderr = some c ∧ c ≠ FAILURE := by
  have hheader : errorValue stderr ERR_ELF_HEADER ≠ FAILURE := errorValue_ne_failure (by decide) _
  have h32 : errorValue stderr ERR_ELF32 ≠ FAILURE := errorValue_ne_failure (by decide) _
  have hundef : errorValue stderr ERR_UNDEFCLASS_ELF ≠ FAILURE :=
    errorValue_ne_failure (by decide) _
  unfold checkHeader
  split
  · exact ⟨_, rfl, hheader⟩
  · rename_i hlen
    have hlen' : EHDR_SIZE ≤ img.bytes.length := by omega
    have hident : img.Has (eIdent img) 4 := by
      have h := has_header hlen' (o := 0) (n := 4) (by decide) (by decide)
      rwa [BitVec.add_zero] at h
    have htype : img.Has (eType img) 2 := has_header hlen' (o := 16) (by decide) (by decide)
    have hclass : img.Has (eClass img) 1 := has_header hlen' (o := 4) (by decide) (by decide)
    simp only [img.read_eq_some hident, img.read_eq_some htype, img.read_eq_some hclass,
      Option.bind_eq_bind, Option.bind_some]
    split
    · exact ⟨_, rfl, hheader⟩
    · split
      · exact ⟨_, rfl, hheader⟩
      · split
        · exact ⟨_, rfl, h32⟩
        · split
          · exact ⟨_, rfl, hundef⟩
          · exact ⟨_, rfl, by decide⟩

/-- So `parse_file` makes its two comparisons whatever the header says. -/
theorem parseFile_eq (img : Image) (stderr : Bool) :
    parseFile img stderr = (img.read (eShoff img) 8).bind fun shoff =>
      if img.beyond (advance img.base shoff) then some (.callback 0)
      else (img.read (eShstrndx img) 2).bind fun shstrndx =>
        (img.read (shOffset (shdrAt (advance img.base shoff) shstrndx)) 8).bind fun str =>
          if img.beyond (advance img.base str) then some (.callback 0) else some ⟨SUCCESS, 0⟩ := by
  obtain ⟨c, hc, hne⟩ := checkHeader_passes img stderr
  simp only [parseFile, hc, Option.bind_eq_bind, Option.bind_some, if_neg hne]

/-! ## 5. The files that are loaded -/

/-- `infos->shdr`, as the header of the image says. -/
def shdrOf (img : Image) : Word := advance img.base (img.field (eShoff img) 8)

/-- The header of the section that `e_shstrndx` names. -/
def shstrOf (img : Image) : Word := shdrAt (shdrOf img) (img.field (eShstrndx img) 2)

/-- `infos->strtab`. -/
def strtabOf (img : Image) : Word := advance img.base (img.field (shOffset (shstrOf img)) 8)

/-- What `load_infos` is meant to accept: an ELF64 executable whose section header table and
section-name string table start within the file.  The header that says where the latter starts
is in the pages of the file. -/
structure GoodImage (img : Image) : Prop where
  header : EHDR_SIZE ≤ img.bytes.length
  magic : img.field (eIdent img) 4 = ELFMAG
  elfClass : img.field (eClass img) 1 = ELFCLASS64
  type : img.field (eType img) 2 = ET_EXEC
  sections : img.field (eShoff img) 8 < img.bytes.length
  nameHeader : img.off (shOffset (shstrOf img)) + 8 ≤ pageUp img.bytes.length
  names : img.field (shOffset (shstrOf img)) 8 < img.bytes.length

instance (img : Image) : Decidable (GoodImage img) :=
  decidable_of_iff (EHDR_SIZE ≤ img.bytes.length ∧ img.field (eIdent img) 4 = ELFMAG ∧
    img.field (eClass img) 1 = ELFCLASS64 ∧ img.field (eType img) 2 = ET_EXEC ∧
    img.field (eShoff img) 8 < img.bytes.length ∧
    img.off (shOffset (shstrOf img)) + 8 ≤ pageUp img.bytes.length ∧
    img.field (shOffset (shstrOf img)) 8 < img.bytes.length)
    ⟨fun ⟨h1, h2, h3, h4, h5, h6, h7⟩ => ⟨h1, h2, h3, h4, h5, h6, h7⟩,
      fun h => ⟨h.header, h.magic, h.elfClass, h.type, h.sections, h.nameHeader, h.names⟩⟩

/-- The paths could be built, and the file opened, sized and mapped, and it is a good one. -/
def Good (env : LoadEnv) : Prop :=
  env.paths = true ∧ env.opened = true ∧ env.sized = true ∧ ∃ img ∈ env.mapped, GoodImage img

/-- `load_infos` accepts the good files, and reports a failure on all others. -/
def LoadsGood (env : LoadEnv) : Prop :=
  ∃ r, loadInfos env = some r ∧ (r.code = SUCCESS ↔ Good env) ∧ (r.code = FAILURE ↔ ¬ Good env)

/-- A start beyond the end of the file is found out by the first comparison, or the start of
the name table by the second, each after reads for which there is memory. -/
def Rejected (img : Image) : Prop :=
  img.Has (eShoff img) 8 ∧ (img.beyond (shdrOf img) = true ∨
    (img.Has (eShstrndx img) 2 ∧ img.Has (shOffset (shstrOf img)) 8 ∧
      img.beyond (strtabOf img) = true))

instance (img : Image) : Decidable (Rejected img) := inferInstanceAs (Decidable (_ ∧ _))

/-- The reads that `parse_file` makes before it accepts. -/
def ParsedThrough (img : Image) : Prop :=
  img.Has (eShoff img) 8 ∧ img.beyond (shdrOf img) = false ∧ img.Has (eShstrndx img) 2 ∧
    img.Has (shOffset (shstrOf img)) 8 ∧ img.beyond (strtabOf img) = false

/-- The half of `parse_file` that is about the string table. -/
theorem parseStrings_cases {img : Image} {r : Option Outcome}
    (hr : ((img.read (eShstrndx img) 2).bind fun shstrndx =>
      (img.read (shOffset (shdrAt (shdrOf img) shstrndx)) 8).bind fun str =>
        if img.beyond (advance img.base str) then some (.callback 0) else some ⟨SUCCESS, 0⟩) = r) :
    (r = none ∧ ¬ (img.Has (eShstrndx img) 2 ∧ img.Has (shOffset (shstrOf img)) 8)) ∨
      (img.Has (eShstrndx img) 2 ∧ img.Has (shOffset (shstrOf img)) 8 ∧
        (r = some (.callback 0) ∧ img.beyond (strtabOf img) = true ∨
          r = some ⟨SUCCESS, 0⟩ ∧ img.beyond (strtabOf img) = false)) := by
  by_cases hidx : img.Has (eShstrndx img) 2
  · rw [img.read_eq_some hidx, Option.bind_some, ← shstrOf] at hr
    by_cases hname : img.Has (shOffset (shstrOf img)) 8
    · rw [img.read_eq_some hname, Option.bind_some, ← strtabOf] at hr
      cases hstr : img.beyond (strtabOf img) with
      | true =>
        rw [hstr, if_pos rfl] at hr
        exact .inr ⟨hidx, hname, .inl ⟨hr.symm, rfl⟩⟩
      | false =>
        rw [hstr, if_neg Bool.false_ne_true] at hr
        exact .inr ⟨hidx, hname, .inr ⟨hr.symm, rfl⟩⟩
    · rw [img.read_eq_none hname] at hr
      exact .inl ⟨hr.symm, fun h => hname h.2⟩
  · rw [img.read_eq_none hidx] at hr
    exact .inl ⟨hr.symm, fun h => hidx h.1⟩

/-- **Everything `parse_file` can do**: fault, reject the file, or accept it. -/
theorem parseFile_cases (img : Image) (stderr : Bool) :
    (parseFile img stderr = none ∧ ¬ Rejected img ∧ ¬ ParsedThrough img) ∨
      (parseFile img stderr = some (.callback 0) ∧ Rejected img) ∨
      (parseFile img stderr = some ⟨SUCCESS, 0⟩ ∧ ParsedThrough img) := by
  rw [parseFile_eq]
  by_cases hoff : img.Has (eShoff img) 8
  · rw [img.read_eq_some hoff, Option.bind_some, ← shdrOf]
    cases hsh : img.beyond (shdrOf img) with
    | true =>
      rw [if_pos rfl]
      exact .inr (.inl ⟨rfl, hoff, .inl hsh⟩)
    | false =>
      rw [if_neg Bool.false_ne_true]
      rcases @parseStrings_cases img _ rfl with
        ⟨hr, hnot⟩ | ⟨hidx, hname, ⟨hr, hstr⟩ | ⟨hr, hstr⟩⟩
      · refine .inl ⟨hr, ?_, fun h => hnot ⟨h.2.2.1, h.2.2.2.1⟩⟩
        rintro ⟨-, h | h⟩
        · rw [hsh] at h
          cases h
        · exact hnot ⟨h.1, h.2.1⟩
      · exact .inr (.inl ⟨hr, hoff, .inr ⟨hidx, hname, hstr⟩⟩)
      · exact .inr (.inr ⟨hr, hoff, hsh, hidx, hname, hstr⟩)
  · rw [img.read_eq_none hoff]
    exact .inl ⟨rfl, fun h => hoff h.1, fun h => hoff h.1⟩

/-- An offset inside the file is not beyond its end. -/
theorem not_beyond_of_lt {img : Image} {o : ℕ} (h : o < img.bytes.length) :
    img.beyond (advance img.base o) = false := by
  have hp := img.placed.2
  simp only [Image.beyond, advance, decide_eq_false_iff_not, BitVec.lt_def, img.toNat_endp,
    BitVec.toNat_add, BitVec.toNat_ofNat]
  omega

/-- A good file is read through and accepted. -/
theorem GoodImage.parsedThrough {img : Image} (h : GoodImage img) (hpaged : img.Paged) :
    ParsedThrough img :=
  ⟨has_header h.header (o := 40) (by decide) (by decide), not_beyond_of_lt h.sections,
    has_header h.header (o := 62) (by decide) (by decide), hpaged.has h.nameHeader,
    not_beyond_of_lt h.names⟩

theorem ParsedThrough.not_rejected {img : Image} (h : ParsedThrough img) : ¬ Rejected img := by
  rintro ⟨-, hsh | ⟨-, -, hstr⟩⟩
  · rw [h.2.1] at hsh
    cases hsh
  · rw [h.2.2.2.2] at hstr
    cases hstr

/-- The paths could be built, and the file opened and sized. -/
def LoadEnv.Ready (env : LoadEnv) : Prop :=
  env.paths = true ∧ env.opened = true ∧ env.sized = true

theorem not_ready_iff (env : LoadEnv) :
    ¬ env.Ready ↔ env.paths = false ∨ env.opened = false ∨ env.sized = false := by
  rw [LoadEnv.Ready, not_and_or, not_and_or, Bool.not_eq_true, Bool.not_eq_true, Bool.not_eq_true]

theorem Good.ready {env : LoadEnv} (h : Good env) : env.Ready := ⟨h.1, h.2.1, h.2.2.1⟩

/-- Good means that the image is, once there is one. -/
theorem good_iff {env : LoadEnv} {img : Image} (h : env.Ready) (hm : env.mapped = some img) :
    Good env ↔ GoodImage img := by
  constructor
  · rintro ⟨-, -, -, img', himg', hgood⟩
    rw [hm] at himg'
    exact Option.some.inj himg' ▸ hgood
  · intro hgood
    exact ⟨h.1, h.2.1, h.2.2, img, hm, hgood⟩

/-- The first three steps report their failure, by one call of the callback. -/
theorem loadInfos_not_ready {env : LoadEnv} (h : ¬ env.Ready) :
    loadInfos env = some (.callback 0) := by
  unfold loadInfos
  cases hp : env.paths with
  | false => rfl
  | true =>
    have hfile : loadFile env = some ⟨FAILURE, 0⟩ := by
      unfold loadFile
      cases ho : env.opened with
      | false => rfl
      | true =>
        cases hs : env.sized with
        | false => rfl
        | true => exact absurd ⟨hp, ho, hs⟩ h
    rw [hfile]
    rfl

/-- A failure of `mmap` is not. -/
theorem loadInfos_unmapped {env : LoadEnv} (h : env.Ready) (hm : env.mapped = none) :
    loadInfos env = some ⟨SUCCESS, 0⟩ := by
  have hval : errorValue env.stderr MMAP_FAILED ≠ FAILURE := errorValue_ne_failure (by decide) _
  simp [loadInfos, loadFile, h.1, h.2.1, h.2.2, hm, hval]

/-- What `load_infos` returns once the file is mapped. -/
theorem loadInfos_mapped {env : LoadEnv} {img : Image} (h : env.Ready)
    (hm : env.mapped = some img) :
    loadInfos env = (parseFile img env.stderr).bind fun r =>
      if r.code = FAILURE then some (.callback r.calls) else some ⟨SUCCESS, r.calls⟩ := by
  simp only [loadInfos, loadFile, h.1, h.2.1, h.2.2, hm, Bool.true_eq_false, if_false,
    Option.bind_eq_bind]

/-- To fail is right for a file that is not good. -/
theorem loadsGood_of_failure {env : LoadEnv} {r : Outcome} (hload : loadInfos env = some r)
    (hcode : r.code = FAILURE) (hgood : ¬ Good env) : LoadsGood env := by
  refine ⟨r, hload, ?_, iff_of_true hcode hgood⟩
  rw [hcode]
  exact iff_of_false (by decide) hgood

/-- To succeed is right for a good file. -/
theorem loadsGood_of_success {env : LoadEnv} {calls : ℕ}
    (hload : loadInfos env = some ⟨SUCCESS, calls⟩) : LoadsGood env ↔ Good env := by
  constructor
  · rintro ⟨r, hr, hsucc, -⟩
    rw [hload] at hr
    obtain rfl := Option.some.inj hr
    exact hsucc.mp rfl
  · intro hgood
    have hne : SUCCESS ≠ FAILURE := by decide
    exact ⟨_, hload, iff_of_true rfl hgood, iff_of_false hne (not_not.mpr hgood)⟩

/-- **A mapped file** is dealt with rightly if it is good or a comparison rejects it. -/
theorem loadsGood_mapped {env : LoadEnv} {img : Image} (h : env.Ready)
    (hm : env.mapped = some img) : LoadsGood env ↔ GoodImage img ∨ Rejected img := by
  have hload := loadInfos_mapped h hm
  have hpaged : img.Paged := env.paged img hm
  rcases parseFile_cases img env.stderr with ⟨hparse, hrej, hthrough⟩ | ⟨hparse, hrej⟩ |
    ⟨hparse, hthrough⟩
  · -- a fault
    rw [hparse, Option.bind_none] at hload
    refine iff_of_false ?_ ?_
    · rintro ⟨r, hr, -⟩
      rw [hload] at hr
      cases hr
    · rintro (hgood | hrej')
      · exact hthrough (hgood.parsedThrough hpaged)
      · exact hrej hrej'
  · rw [hparse] at hload
    refine iff_of_true (loadsGood_of_failure (r := .callback 1) hload rfl ?_) (.inr hrej)
    rw [good_iff h hm]
    intro hgood
    exact (hgood.parsedThrough hpaged).not_rejected hrej
  · have hne : SUCCESS ≠ FAILURE := by decide
    rw [hparse, Option.bind_some, if_neg hne] at hload
    rw [loadsGood_of_success hload, good_iff h hm, or_iff_left hthrough.not_rejected]

/-- **`load_infos` accepts exactly the good files on these outcomes and no others**: the file
is good; or the paths, the opening or the sizing fail; or the file is mapped and one of the
two comparisons of `parse_file` rejects it.  A failing `mmap` and every check of the header
are not among them. -/
theorem loadsGood_iff (env : LoadEnv) :
    LoadsGood env ↔ Good env ∨ env.paths = false ∨ env.opened = false ∨ env.sized = false ∨
      ∃ img ∈ env.mapped, Rejected img := by
  by_cases h : env.Ready
  · obtain ⟨hp, ho, hs⟩ := h
    simp only [hp, ho, hs, Bool.true_eq_false, false_or]
    cases hm : env.mapped with
    | none =>
      have hnone : ¬ ∃ img ∈ (none : Option Image), Rejected img := by
        rintro ⟨img, himg, -⟩
        cases himg
      rw [loadsGood_of_success (loadInfos_unmapped ⟨hp, ho, hs⟩ hm), or_iff_left hnone]
    | some img =>
      have hsome : (∃ img' ∈ some img, Rejected img') ↔ Rejected img := by simp
      rw [loadsGood_mapped ⟨hp, ho, hs⟩ hm, good_iff ⟨hp, ho, hs⟩ hm, hsome]
  · have hload := loadInfos_not_ready h
    refine iff_of_true (loadsGood_of_failure hload rfl fun hgood => h hgood.ready) (.inr ?_)
    rcases (not_ready_iff env).mp h with hp | ho | hs
    · exact .inl hp
    · exact .inr (.inl ho)
    · exact .inr (.inr (.inl hs))

/-- `mmap` fails. -/
def unmapped : LoadEnv where
  paths := true
  opened := true
  sized := true
  mapped := none
  paged := by
    rintro img ⟨⟩
  stderr := true

/-- **A file that could not be mapped is accepted.** -/
theorem mmap_failure_accepted : loadInfos unmapped = some ⟨SUCCESS, 0⟩ ∧ ¬ Good unmapped := by
  refine ⟨by decide, ?_⟩
  rintro ⟨-, -, -, img, himg, -⟩
  cases himg

/-! ## 6. The calls of the failure callback -/

/-- What `check_header` asks of the header. -/
structure HeaderAccepted (img : Image) : Prop where
  room : EHDR_SIZE ≤ img.bytes.length
  magic : img.field (eIdent img) 4 = ELFMAG
  type : img.field (eType img) 2 = ET_EXEC
  elfClass : img.field (eClass img) 1 = ELFCLASS64

/-- **`check_header` succeeds on exactly these headers.** -/
theorem checkHeader_eq_success (img : Image) (stderr : Bool) :
    checkHeader img stderr = some SUCCESS ↔ HeaderAccepted img := by
  have hheader : errorValue stderr ERR_ELF_HEADER ≠ SUCCESS := errorValue_ne_success (by decide) _
  have h32 : errorValue stderr ERR_ELF32 ≠ SUCCESS := errorValue_ne_success (by decide) _
  have hundef : errorValue stderr ERR_UNDEFCLASS_ELF ≠ SUCCESS :=
    errorValue_ne_success (by decide) _
  have hne {v : ℤ} (h : v ≠ SUCCESS) : some v ≠ some SUCCESS := fun heq => h (Option.some.inj heq)
  unfold checkHeader
  split
  · rename_i hlen
    refine iff_of_false (hne hheader) ?_
    intro h
    exact absurd h.room (by omega)
  · rename_i hlen
    have hlen' : EHDR_SIZE ≤ img.bytes.length := by omega
    have hident : img.Has (eIdent img) 4 := by
      have h := has_header hlen' (o := 0) (n := 4) (by decide) (by decide)
      rwa [BitVec.add_zero] at h
    have htype : img.Has (eType img) 2 := has_header hlen' (o := 16) (by decide) (by decide)
    have hclass : img.Has (eClass img) 1 := has_header hlen' (o := 4) (by decide) (by decide)
    simp only [img.read_eq_some hident, img.read_eq_some htype, img.read_eq_some hclass,
      Option.bind_eq_bind, Option.bind_some]
    split
    · rename_i hmag
      exact iff_of_false (hne hheader) fun h => hmag h.magic
    · rename_i hmag
      split
      · rename_i hexec
        exact iff_of_false (hne hheader) fun h => hexec h.type
      · rename_i hexec
        split
        · rename_i h32'
          refine iff_of_false (hne h32) ?_
          intro h
          rw [h.elfClass] at h32'
          exact absurd h32' (by decide)
        · split
          · rename_i h64
            exact iff_of_false (hne hundef) fun h => h64 h.elfClass
          · rename_i h64
            exact iff_of_true rfl
              ⟨hlen', not_not.mp hmag, not_not.mp hexec, not_not.mp h64⟩

/-- No step of `load_infos` fails: the paths, the opening, the sizing, the mapping, and the
checks of the header, the section table and the string table. -/
def StepsPass (env : LoadEnv) : Prop :=
  env.Ready ∧ ∃ img ∈ env.mapped, HeaderAccepted img ∧ ParsedThrough img

/-- The callback is called once if a step fails, and not at all if none does. -/
def CallsBackOnce (env : LoadEnv) : Prop :=
  ∃ r, loadInfos env = some r ∧ (StepsPass env → r.calls = 0) ∧ (¬ StepsPass env → r.calls = 1)

/-- What the count has to be, given the result. -/
theorem callsBackOnce_iff_of_eq {env : LoadEnv} {r : Outcome} (h : loadInfos env = some r) :
    CallsBackOnce env ↔ (StepsPass env → r.calls = 0) ∧ (¬ StepsPass env → r.calls = 1) := by
  constructor
  · rintro ⟨r', hr', hcount⟩
    rw [h] at hr'
    exact Option.some.inj hr' ▸ hcount
  · intro hcount
    exact ⟨r, h, hcount⟩

/-- **A mapped file** has the calls it should if it passes every check, and otherwise never:
none for a header that is wrong, two for a section or string table that is. -/
theorem callsBackOnce_mapped {env : LoadEnv} {img : Image} (h : env.Ready)
    (hm : env.mapped = some img) : CallsBackOnce env ↔ StepsPass env := by
  have hload := loadInfos_mapped h hm
  have hpass (hsteps : StepsPass env) : ParsedThrough img := by
    obtain ⟨-, img', himg', -, hthrough⟩ := hsteps
    rw [hm] at himg'
    exact Option.some.inj himg' ▸ hthrough
  rcases parseFile_cases img env.stderr with ⟨hparse, -, hthrough⟩ | ⟨hparse, hrej⟩ |
    ⟨hparse, hthrough⟩
  · -- a fault
    rw [hparse, Option.bind_none] at hload
    refine iff_of_false ?_ fun hsteps => hthrough (hpass hsteps)
    rintro ⟨r, hr, -⟩
    rw [hload] at hr
    cases hr
  · -- once in `parse_file`, and again in `load_infos`
    rw [hparse] at hload
    have hcalls : loadInfos env = some ⟨FAILURE, 2⟩ := hload
    have hsteps : ¬ StepsPass env := fun hsteps => (hpass hsteps).not_rejected hrej
    rw [callsBackOnce_iff_of_eq hcalls]
    refine iff_of_false ?_ hsteps
    rintro ⟨-, hone⟩
    exact absurd (hone hsteps) (by decide)
  · have hne : SUCCESS ≠ FAILURE := by decide
    rw [hparse, Option.bind_some, if_neg hne] at hload
    rw [callsBackOnce_iff_of_eq hload]
    constructor
    · rintro ⟨-, hone⟩
      by_contra hsteps
      exact absurd (hone hsteps) (by decide)
    · intro hsteps
      exact ⟨fun _ => rfl, fun hnot => absurd hsteps hnot⟩

/-- **The failure callback is called as often as it should be** exactly if the paths, the
opening or the sizing fail, or no step does.  A failing `mmap` and a wrong header call it not
at all, and a wrong section or string table calls it twice. -/
theorem callsBackOnce_iff (env : LoadEnv) :
    CallsBackOnce env ↔ env.paths = false ∨ env.opened = false ∨ env.sized = false ∨
      StepsPass env := by
  by_cases h : env.Ready
  · have hnot : ¬ (env.paths = false ∨ env.opened = false ∨ env.sized = false) :=
      fun hc => (not_ready_iff env).mpr hc h
    rw [← or_assoc, ← or_assoc, or_assoc (a := env.paths = false), or_iff_right hnot]
    cases hm : env.mapped with
    | none =>
      have hsteps : ¬ StepsPass env := by
        rintro ⟨-, img, himg, -⟩
        rw [hm] at himg
        cases himg
      rw [callsBackOnce_iff_of_eq (loadInfos_unmapped h hm)]
      refine iff_of_false ?_ hsteps
      rintro ⟨-, hone⟩
      exact absurd (hone hsteps) (by decide)
    | some img => exact callsBackOnce_mapped h hm
  · have hsteps : ¬ StepsPass env := fun hsteps => h hsteps.1
    rw [callsBackOnce_iff_of_eq (loadInfos_not_ready h)]
    refine iff_of_true ⟨fun hc => absurd hc hsteps, fun _ => rfl⟩ ?_
    rcases (not_ready_iff env).mp h with hp | ho | hs
    · exact .inl hp
    · exact .inr (.inl ho)
    · exact .inr (.inr (.inl hs))

/-- An executable whose section table starts beyond its end. -/
def sectionsBeyond : Image :=
  .ofFile 0x1000 ([0x7F, 0x45, 0x4C, 0x46, 2] ++ List.replicate 11 0 ++ [2] ++
    List.replicate 24 0 ++ [1] ++ List.replicate 22 0) (by decide)

/-- It is mapped. -/
def mappedBeyond : LoadEnv where
  paths := true
  opened := true
  sized := true
  mapped := some sectionsBeyond
  paged := by
    rintro img ⟨⟩
    exact Image.paged_ofFile _ _ _
  stderr := true

/-- **The traced process is killed twice** when the section table of its file is beyond the end,
and not at all when its file cannot be mapped. -/
theorem callsBackOnce_fails :
    ((loadInfos mappedBeyond).map Outcome.calls = some 2 ∧ ¬ CallsBackOnce mappedBeyond) ∧
      ((loadInfos unmapped).map Outcome.calls = some 0 ∧ ¬ CallsBackOnce unmapped) := by
  refine ⟨⟨by decide +kernel, ?_⟩, by decide, ?_⟩
  · have hload : loadInfos mappedBeyond = some ⟨FAILURE, 2⟩ := by decide +kernel
    have hrej : sectionsBeyond.beyond (shdrOf sectionsBeyond) = true := by decide +kernel
    rintro ⟨r, hr, -, hone⟩
    obtain rfl := Option.some.inj (hload.symm.trans hr)
    refine absurd (hone ?_) (by decide)
    rintro ⟨-, img, himg, -, hthrough⟩
    obtain rfl := Option.some.inj himg
    rw [hthrough.2.1] at hrej
    cases hrej
  · have hload : loadInfos unmapped = some ⟨SUCCESS, 0⟩ := by decide
    rintro ⟨r, hr, -, hone⟩
    obtain rfl := Option.some.inj (hload.symm.trans hr)
    refine absurd (hone ?_) (by decide)
    rintro ⟨-, img, himg, -⟩
    cases himg

end Ftrace
