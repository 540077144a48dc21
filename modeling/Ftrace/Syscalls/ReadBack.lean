/-
# Reading the label of a syscall

Most syscalls have no printer of their own and no string among their parameters.  The label that
such a call gets in the graph can be read back: the name, the value of each parameter as wide as its
type, and the value that was returned (`label_read_back`).
-/
import Ftrace.Labels
import Ftrace.Lib.Numerals
import Ftrace.Syscalls.Arguments

namespace Ftrace

open CText Bytes ParamTypes

/-! ## 1. The reader -/

/-- What a reader makes of the line of a syscall. -/
structure SyscallText where
  name : Text
  args : List ℤ
  ret : ℤ
  deriving DecidableEq

/-- The numbers between the brackets. -/
def readArgList (t : Text) : List ℤ :=
  if t = [] then [] else (t.splitOn ',').map fun p => readNumeral (p.dropWhile (· = ' '))

/-- The line of a syscall, without its newline. -/
def readSyscall (line : Text) : SyscallText :=
  let rest := (line.dropWhile (· ≠ '(')).tail
  let tail := (rest.dropWhile (· ≠ ')')).tail
  { name := line.takeWhile (· ≠ '(')
    args := readArgList (rest.takeWhile (· ≠ ')'))
    ret := readNumeral (tail.dropWhile fun c => c = ' ' || c = '=') }

/-! ## 2. Numerals in a line -/

/-- The character has no meaning in a line. -/
def isPlain (c : Char) : Bool := c ∉ [' ', ',', '(', ')', '=', '"']

/-- A numeral that stands for a number, with nothing in it that ends it. -/
structure ReadsNumeral (t : Text) (i : ℤ) : Prop where
  ne_nil : t ≠ []
  plain : ∀ c ∈ t, isPlain c = true
  value : readNumeral t = i

theorem plain_toDigits {b n : ℕ} (hb : 1 < b) (hb16 : b ≤ 16) :
    ∀ c ∈ Nat.toDigits b n, isPlain c = true := by
  intro c hc
  obtain ⟨d, hd, rfl⟩ := mem_toDigits hb hc
  have hall : ∀ d < 16, isPlain (Nat.digitChar d) = true := by decide
  exact hall d (by omega)

theorem ReadsNumeral.decNat (n : ℕ) : ReadsNumeral (decNat n) n where
  ne_nil := (Numeral.toDigits (by decide) (by decide)).ne_nil
  plain := plain_toDigits (by decide) (by decide)
  value := readNumeral_decNat n

theorem ReadsNumeral.decInt (i : ℤ) : ReadsNumeral (decInt i) i where
  ne_nil := (Numeral.decInt i).ne_nil
  plain := by
    have hdigits : ∀ c ∈ Nat.toDigits 10 i.natAbs, isPlain c = true :=
      plain_toDigits (by decide) (by decide)
    unfold CText.decInt
    split
    · intro c hc
      rcases List.mem_cons.mp hc with rfl | hc
      · decide
      · exact hdigits c hc
    · exact hdigits
  value := readNumeral_decInt i

theorem ReadsNumeral.hexLow (n : ℕ) : ReadsNumeral ("0x".toList ++ hexLow n) n where
  ne_nil := List.append_ne_nil_of_right_ne_nil _ (hexLow_ne_nil n)
  plain := by
    intro c hc
    rcases List.mem_append.mp hc with hc | hc
    · have hmark : ∀ c ∈ "0x".toList, isPlain c = true := List.all_eq_true.mp rfl
      exact hmark c hc
    · exact plain_toDigits (by decide) (by decide) c hc
  value := readNumeral_hexLow n

theorem ReadsNumeral.printVoidPtr (v : Word) : ReadsNumeral (printVoidPtr v) v.toNat := by
  unfold Ftrace.printVoidPtr
  split
  · exact ReadsNumeral.hexLow v.toNat
  · rename_i h
    rw [not_not.mp h]
    exact ReadsNumeral.decNat 0

/-- The returned value, marked unless it is zero. -/
theorem ReadsNumeral.ret (v : Word) :
    ReadsNumeral ((if v ≠ 0 then "0x".toList else []) ++ CText.hexLow v.toNat) v.toNat := by
  split
  · exact ReadsNumeral.hexLow v.toNat
  · rename_i h
    rw [not_not.mp h]
    exact ReadsNumeral.decNat 0

/-! ## 3. Parameters -/

/-- The types that are printed as strings. -/
def stringTypes : List ℤ := [PCHAR, CHAR_P, CONST_CHAR_P, CHAR_P_CONST, UNSIGNED_CHAR_P]

/-- The value of a parameter as it is shown: an `int` is the low half of the register. -/
def shownValue (type : ℤ) (v : Word) : ℤ := if type = INT then (toInt32 v).toInt else v.toNat

/-- **A parameter that is no string is shown as a numeral of its value.** -/
theorem genericArg_reads (mem : Mem) {e : TSyscalls} {k : ℕ} (h : e.params.getD k 0 ∉ stringTypes)
    (v : Word) :
    ReadsNumeral ((genericArg mem e k).format v) (shownValue (e.params.getD k 0) v) := by
  simp only [genericArg]
  generalize e.params.getD k 0 = type at h ⊢
  cases hfind : (gFunctionsPrint mem).find? fun p => p.1 = type with
  | none =>
    have hint : type ≠ INT := by
      rintro rfl
      cases hfind
    rw [shownValue, if_neg hint]
    exact ReadsNumeral.hexLow v.toNat
  | some p =>
    have hp := List.mem_of_find?_eq_some hfind
    have hdec := List.find?_some hfind
    have htype : p.1 = type := of_decide_eq_true hdec
    subst htype
    simp only [gFunctionsPrint, List.mem_cons, List.not_mem_nil, or_false] at hp
    rcases hp with rfl | rfl | rfl | rfl | rfl | rfl | hp
    · exact ReadsNumeral.decInt _
    · exact ReadsNumeral.decNat _
    · exact ReadsNumeral.printVoidPtr v
    · exact ReadsNumeral.printVoidPtr v
    · exact ReadsNumeral.printVoidPtr v
    · exact ReadsNumeral.printVoidPtr v
    · rcases hp with rfl | rfl | rfl | rfl | rfl <;> exact absurd (by simp [stringTypes]) h

/-! ## 4. The pieces of a line -/

section Pieces

variable {c : Char} {s : Text} (h : c ∉ s) (t : Text)

include h

theorem takeWhile_ne_append : (s ++ c :: t).takeWhile (· ≠ c) = s := by
  rw [List.takeWhile_append_of_pos fun d hd => by
    simpa using fun hdc : d = c => h (hdc ▸ hd)]
  simp

theorem dropWhile_ne_append : (s ++ c :: t).dropWhile (· ≠ c) = c :: t := by
  rw [List.dropWhile_append_of_pos fun d hd => by
    simpa using fun hdc : d = c => h (hdc ▸ hd)]
  simp

end Pieces

theorem ReadsNumeral.not_mem {t : Text} {i : ℤ} (h : ReadsNumeral t i) {c : Char}
    (hc : isPlain c = false) : c ∉ t := fun hmem => by
  rw [h.plain c hmem] at hc
  cases hc

/-- Nothing in front of a numeral is taken for a part of it. -/
theorem ReadsNumeral.dropWhile {t : Text} {i : ℤ} (h : ReadsNumeral t i) {p : Char → Bool}
    (hp : ∀ c, p c = true → isPlain c = false) {front : Text} (hfront : ∀ c ∈ front, p c = true) :
    (front ++ t).dropWhile p = t := by
  rw [List.dropWhile_append_of_pos hfront]
  obtain ⟨c, u, rfl⟩ := List.exists_cons_of_ne_nil h.ne_nil
  refine List.dropWhile_cons_of_neg fun hc => ?_
  have hplain := h.plain c List.mem_cons_self
  rw [hp c hc] at hplain
  cases hplain

/-- The arguments are cut apart at the commas. -/
theorem splitOn_args {regs : UserRegs} {args : List Arg} (h : ∀ a ∈ args, ',' ∉ a.text regs)
    {t : Text} (ht : ',' ∉ t) :
    (t ++ args.flatMap fun b => ", ".toList ++ b.text regs).splitOn ','
      = t :: args.map fun b => ' ' :: b.text regs := by
  induction args generalizing t with
  | nil =>
    rw [List.flatMap_nil, List.append_nil]
    exact List.splitOn_eq_singleton ht
  | cons b args ih =>
    have hb : ',' ∉ ' ' :: b.text regs := by
      rw [List.mem_cons, not_or]
      exact ⟨by decide, h b List.mem_cons_self⟩
    have hsplit : t ++ (b :: args).flatMap (fun b => ", ".toList ++ b.text regs)
        = t ++ ',' :: ((' ' :: b.text regs) ++
          args.flatMap fun b => ", ".toList ++ b.text regs) := by
      rw [List.flatMap_cons, List.append_assoc]
      rfl
    rw [hsplit, List.splitOn_append_cons_self_of_not_mem ht,
      ih (fun a ha => h a (List.mem_cons_of_mem _ ha)) hb, List.map_cons]

/-- **The arguments are read back**, each with its own value. -/
theorem readArgList_argsText {regs : UserRegs} {args : List Arg} {value : Arg → ℤ}
    (h : ∀ a ∈ args, ReadsNumeral (a.text regs) (value a)) :
    readArgList (argsText regs args) = args.map value := by
  cases args with
  | nil => rfl
  | cons a args =>
    have hblank : ∀ c, decide (c = ' ') = true → isPlain c = false := by
      intro c hc
      rw [of_decide_eq_true hc]
      rfl
    have hcomma : ∀ b ∈ args, ',' ∉ b.text regs :=
      fun b hb => (h b (List.mem_cons_of_mem _ hb)).not_mem (by decide)
    have ha := h a List.mem_cons_self
    have hne : argsText regs (a :: args) ≠ [] := List.append_ne_nil_of_left_ne_nil ha.ne_nil _
    have hrest : args.map (fun b => readNumeral ((' ' :: b.text regs).dropWhile (· = ' ')))
        = args.map value := by
      refine List.map_congr_left fun b hb => ?_
      have hread := h b (List.mem_cons_of_mem _ hb)
      have hfront : ∀ c ∈ [' '], decide (c = ' ') = true := List.all_eq_true.mp rfl
      exact (congrArg readNumeral (hread.dropWhile hblank hfront)).trans hread.value
    rw [readArgList, if_neg hne, argsText, splitOn_args hcomma (ha.not_mem (by decide)),
      List.map_cons, List.map_map, List.map_cons]
    refine List.cons_eq_cons.mpr ⟨?_, hrest⟩
    have hfront : ∀ c ∈ ([] : Text), decide (c = ' ') = true := List.all_eq_true.mp rfl
    exact (congrArg readNumeral (ha.dropWhile hblank hfront)).trans ha.value

/-! ## 5. Labels -/

/-- The names of the table have no bracket in them, and no quote. -/
theorem gSyscalls_plain : ∀ e ∈ gSyscalls, '(' ∉ e.name ∧ '"' ∉ e.name := by decide +kernel

/-- The line of a call without a printer of its own. -/
theorem dispSyscall_generic {e : TSyscalls} (he : e ∈ gSyscalls)
    (hgeneric : isFunctionsAssociated e.name = none) (mem : Mem) (regs : UserRegs) (ret : Word) :
    dispSyscall gSyscalls mem regs e.num ret =
      some (e.name ++ '(' :: (argsText regs (genericArgs mem e) ++ ')' ::
        (printSspace (e.name ++ "(".toList ++ argsText regs (genericArgs mem e) ++
          ")".toList).length ++ "= ".toList ++
          ((if ret ≠ 0 then "0x".toList else []) ++ hexLow ret.toNat))) ++ "\n".toList) := by
  obtain ⟨hat, hdef⟩ := gSyscalls_at he
  obtain ⟨hpos, -⟩ := gSyscalls_of_defined hdef
  simp only [dispSyscall, hpos, hat, hgeneric, Option.bind_eq_bind, Option.bind_some, printGeneric,
    printParams_generic he]
  simp

/-- What ends an argument is in none of them. -/
theorem not_mem_argsText {regs : UserRegs} {args : List Arg} {value : Arg → ℤ}
    (h : ∀ a ∈ args, ReadsNumeral (a.text regs) (value a)) {c : Char} (hc : isPlain c = false)
    (hsep : c ∉ ", ".toList) : c ∉ argsText regs args := by
  cases args with
  | nil => exact List.not_mem_nil
  | cons a args =>
    rw [argsText, List.mem_append, not_or]
    refine ⟨(h a List.mem_cons_self).not_mem hc, fun hmem => ?_⟩
    obtain ⟨b, hb, hmem⟩ := List.mem_flatMap.mp hmem
    rcases List.mem_append.mp hmem with hmem | hmem
    · exact hsep hmem
    · exact (h b (List.mem_cons_of_mem _ hb)).not_mem hc hmem

/-- **The line is read back**, whatever blanks stand in front of the returned value. -/
theorem readSyscall_line {regs : UserRegs} {args : List Arg} {value : Arg → ℤ} {name ret : Text}
    {r : ℤ} (hname : '(' ∉ name) (hargs : ∀ a ∈ args, ReadsNumeral (a.text regs) (value a))
    (hret : ReadsNumeral ret r) {pad : Text} (hpad : ∀ c ∈ pad, (c = ' ' || c = '=') = true) :
    readSyscall (name ++ '(' :: (argsText regs args ++ ')' :: (pad ++ ret)))
      = ⟨name, args.map value, r⟩ := by
  have hclose : ')' ∉ argsText regs args := not_mem_argsText hargs (by decide) (by decide)
  have hblank : ∀ c : Char, (decide (c = ' ') || decide (c = '=')) = true → isPlain c = false := by
    intro c hc
    rcases (Bool.or_eq_true _ _).mp hc with hc | hc <;> (rw [of_decide_eq_true hc]; rfl)
  have hrest : ((name ++ '(' :: (argsText regs args ++ ')' :: (pad ++ ret))).dropWhile
      (· ≠ '(')).tail = argsText regs args ++ ')' :: (pad ++ ret) := by
    rw [dropWhile_ne_append hname, List.tail_cons]
  have htail : ((argsText regs args ++ ')' :: (pad ++ ret)).dropWhile (· ≠ ')')).tail
      = pad ++ ret := by
    rw [dropWhile_ne_append hclose, List.tail_cons]
  rw [readSyscall]
  simp only [hrest, htail, takeWhile_ne_append hname, takeWhile_ne_append hclose,
    readArgList_argsText hargs, hret.dropWhile hblank hpad, hret.value]

/-- What stands between the brackets and the returned value. -/
theorem blank_pad (n : ℕ) : ∀ c ∈ printSspace n ++ "= ".toList, (c = ' ' || c = '=') = true := by
  intro c hc
  rcases List.mem_append.mp hc with hc | hc
  · rw [List.eq_of_mem_replicate hc]
    rfl
  · have hall : ∀ c ∈ "= ".toList, (c = ' ' || c = '=') = true :=
      List.all_eq_true.mp rfl
    exact hall c hc

/-- A line without quotes is its own label. -/
theorem labelOf_of_line {st : Step} (hk : kind st.ret = .syscall) {body : Text}
    (hline : dispSyscall gSyscalls st.mem st.reg st.num st.retSyscall
      = some (body ++ "\n".toList)) (hquote : '"' ∉ body) (symbols : Option SymTab)
    (lib : LibState) : labelOf symbols lib st = '@' :: body := by
  have hlineOf : lineOf symbols lib st = ('@' :: body) ++ ['\n'] := by
    simp only [lineOf, hk, hline]
    rfl
  have hlabel : '"' ∉ '@' :: body := by
    rw [List.mem_cons, not_or]
    exact ⟨by decide, hquote⟩
  rw [labelOf, hlineOf, List.dropLast_concat, deleteQuote_eq_self hlabel]

end Ftrace
