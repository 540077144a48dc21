/-
# The functions of the program in the graph

`ElfFormat` says what is loaded from the file of the program, and `Trace` which instructions become
nodes of the graph.  Together: the node of a call shows where the call goes, and by which names the
file knows that place (`functions_named`).

This is about the calls whose target is in their own bytes or in a register.  Where another call
goes is read from memory, and `Aftermath` says when that is read rightly.
-/
import Ftrace.CallTargets
import Ftrace.SymbolFiles
import Ftrace.Trace

namespace Ftrace

open CText Bytes Mapped Runs

/-! ## 1. Targets -/

/-- Where a call goes, as far as its bytes and the registers tell. -/
def ownTarget (e : Executed) : Option Word :=
  if byteOf e.2 0 = 0xE8#8 then some (e.1.rip + 5 + X86.disp32 e.2 1)
  else if IsIndirectCall e.2 ∧ X86.IsDirect (operandOf e.2) then archTarget Mem.empty e.2 e.1
  else none

/-- `print_call` goes there too, whatever is in memory. -/
theorem printCall_of_ownTarget {e : Executed} {a : Word} (h : ownTarget e = some a) :
    IsCallWord e.2 ∧ ∀ mem, (printCall mem e.2 e.1).addr = a := by
  unfold ownTarget at h
  split at h
  · rename_i he8
    refine ⟨.inl he8, fun mem => ?_⟩
    rw [printCall_of_e8 he8]
    exact (relativeAddr_eq e.2 e.1).trans (Option.some.inj h)
  · split at h
    · rename_i hind
      obtain ⟨hcall, hd⟩ := hind
      refine ⟨(isCallWord_iff e.2).mpr (.inr hcall), fun mem => ?_⟩
      have hup : X86.upper (byteOf (operandOf e.2) 0) = 3 := hd
      have hrow : ¬ (extOf e.2 = true ∧ byteOf (operandOf e.2) 0 = 0x17#8) := by
        rintro ⟨-, h17⟩
        rw [h17] at hup
        exact absurd hup (by decide)
      -- memory is not looked at
      have hany : archTarget mem e.2 e.1 = archTarget Mem.empty e.2 e.1 := by
        rw [archTarget, archTarget, X86.operand, X86.operand, if_pos hd, if_pos hd]
      exact targetOk_direct hcall hd hrow mem a (hany.trans h)
    · cases h

/-! ## 2. What a label tells -/

/-- The names of symbols as they stand behind the address in a label. -/
def namesShown (names : List Text) : Text :=
  deleteQuote (names.flatMap fun n => " ..... ".toList ++ n ++ "\n".toList).dropLast

/-- What the lookup in the libraries has printed for an address, in a label. -/
def LibraryShown (e : Executed) (a : Word) (shown : Text) : Prop :=
  ∃ (st : Step) (lib : LibState), st.executed = e ∧ shown =
    deleteQuote (" .....".toList ++ (getLibFile st.load a (findHeader st.mem a) st.maps lib).out)

/-- **What the label of a call tells**: the digits of the target, and behind them the names of the
file's symbols there, or else what is found in the libraries. -/
structure ShowsTarget (f : ElfFile) (e : Executed) (a : Word) (l : Text) : Prop where
  target : (l.drop 43).take 16 = hex16 a
  named : (∃ s ∈ f.kept, s.value = a) → ∃ names : List Text,
    names.Perm ((f.kept.filter fun s => s.value = a).map f.nameOf) ∧ l.drop 59 = namesShown names
  unnamed : (∀ s ∈ f.kept, s.value ≠ a) → LibraryShown e a (l.drop 59)

/-- The label of a call, up to the address and behind it. -/
theorem labelOf_call {st : Step} (hk : kind st.ret = .call) (symbols : Option SymTab)
    (lib : LibState)
    (hne : (resolveSymbol st.load st.mem st.maps st.call.addr symbols 1 lib).out ≠ []) :
    ((labelOf symbols lib st).drop 43).take 16 = hex16 st.call.addr ∧
      (labelOf symbols lib st).drop 59 = deleteQuote
        (resolveSymbol st.load st.mem st.maps st.call.addr symbols 1 lib).out.dropLast := by
  obtain ⟨header, hout, hlen, -, -⟩ := (callText_step hk).eq
  have hline : lineOf symbols lib st = header ++ ("0x".toList ++ hex16 st.call.addr) ++
      (resolveSymbol st.load st.mem st.maps st.call.addr symbols 1 lib).out := by
    simp only [lineOf, hk, callLine, call_aCall hk, hout]
  have h59 : (deleteQuote (header ++ ("0x".toList ++ hex16 st.call.addr))).length = 59 := by
    rw [length_deleteQuote, List.length_append, List.length_append, hlen, length_hex16]
    rfl
  rw [labelOf, hline, List.dropLast_append_of_ne_nil hne]
  refine ⟨digits_of_header hlen _ _, ?_⟩
  rw [deleteQuote_append, List.drop_left' h59]

/-- **The label of a call tells where it goes**, in whatever state the library lookup is. -/
theorem showsTarget_labelOf {f : ElfFile} {es : List Entry} {t : SymTab}
    (hmap : es.map Entry.cut = f.kept.map f.entry) (hlow : ∀ s ∈ f.kept, s.value.toNat < 2 ^ 32)
    (hp : t.entries.Perm (es.map Entry.symbol)) {st : Step} {a : Word}
    (ha : ownTarget st.executed = some a) (hne : a ≠ 0) (lib : LibState) :
    ShowsTarget f st.executed a (labelOf (some t) lib st) := by
  obtain ⟨hcall, haddr⟩ := printCall_of_ownTarget ha
  have hk : kind st.ret = .call := kind_of_isCallWord hcall
  obtain rfl : st.call.addr = a := haddr st.mem
  obtain ⟨hconsulted, hnames⟩ :=
    lookup_of_entries hmap hlow hp st.load st.mem st.maps lib hne Nat.one_ne_zero
  have hfound := resolveSymbol_consulted st.load st.mem st.maps hne t Nat.one_ne_zero lib
  by_cases hat : t.at st.call.addr = []
  · have hout : (resolveSymbol st.load st.mem st.maps st.call.addr (some t) 1 lib).out
        = " .....".toList ++ (getLibFile st.load st.call.addr (findHeader st.mem st.call.addr)
          st.maps lib).out ++ ['\n'] := by
      rw [resolveSymbol, if_neg (not_or.mpr ⟨hne, Nat.one_ne_zero⟩), if_neg (not_not.mpr hat)]
      rfl
    obtain ⟨htarget, hrest⟩ := labelOf_call hk (some t) lib (by rw [hout]; simp)
    refine ⟨htarget, ?_, fun _ => ⟨st, lib, rfl, ?_⟩⟩
    · rintro ⟨s, hs, hvalue⟩
      exact absurd hvalue (hconsulted.mp (hfound.mpr hat) s hs)
    · rw [hrest, hout, List.dropLast_concat]
  · have hfalse : (resolveSymbol st.load st.mem st.maps st.call.addr (some t) 1 lib).consulted
        = false := by rwa [← Bool.not_eq_true, hfound]
    obtain ⟨names, hperm, hout⟩ := hnames hfalse
    have hsome : (resolveSymbol st.load st.mem st.maps st.call.addr (some t) 1 lib).out ≠ [] := by
      rw [resolveSymbol_printed st.load st.mem st.maps hne hat Nat.one_ne_zero lib,
        flatMap_symbolLine hat]
      exact List.append_ne_nil_of_right_ne_nil _ (List.cons_ne_nil _ _)
    obtain ⟨htarget, hrest⟩ := labelOf_call hk (some t) lib hsome
    refine ⟨htarget, fun _ => ⟨names, hperm, ?_⟩, fun hnone => ?_⟩
    · rw [hrest, hout, namesShown]
    · rw [hconsulted.mpr hnone] at hfalse
      cases hfalse

/-! ## 3. The nodes of the program's calls -/

/-- The label of an instruction tells where it goes, if it is a call whose target is not in
memory. -/
def Tells (f : ElfFile) (e : Executed) (l : Text) : Prop :=
  ∀ a, ownTarget e = some a → a ≠ 0 → ShowsTarget f e a l

theorem tells_of_labelOf {f : ElfFile} {es : List Entry} {t : SymTab}
    (hmap : es.map Entry.cut = f.kept.map f.entry) (hlow : ∀ s ∈ f.kept, s.value.toNat < 2 ^ 32)
    (hp : t.entries.Perm (es.map Entry.symbol)) {e : Executed} {l : Text}
    (h : LabelOf (some t) e l) : Tells f e l := by
  obtain ⟨st, rfl, lib, rfl⟩ := h
  exact fun a ha hne => showsTarget_labelOf hmap hlow hp ha hne lib

/-- **The graph names the functions that the program calls.**  In every finished run of a program
whose file is stored in the image, in whatever order the tracer and the tracee came to move, the
node of each call that is shown tells where it goes, by the names that the file has for it, unless
its target is the null address or in memory. -/
theorem functions_named {malloc : Malloc} {gt : Text → Text → Bool} {img : Image} {f : ElfFile}
    (h : Stores img f) (hlen : img.bytes.length < 2 ^ 32 - 1)
    (hlow : ∀ s ∈ f.kept, s.value.toNat < 2 ^ 32) {symbols : SymTab}
    (hsymbols : getSymbols malloc gt (.mapped img) = some (some symbols))
    {status : Status} {junk : Snapshots} {ret : Word} {acts : List Act} {s : Son}
    (hrun : SonRuns status junk ret acts s) (hdone : s.pc = .done) {r : ℤ} (hr : 0 ≤ r)
    {t : FdTracer} (ht : (seenOf acts).foldlM (sonEvent (some symbols) r) {} = some t) :
    List.Forall₂ (Tells f) (shown (printedOf acts)) (nodesOf t.forget.writes) ∧
      (idleOf acts = 0 →
        List.Forall₂ (Tells f) (shown (executedOf acts)) (nodesOf t.forget.writes)) := by
  obtain ⟨es, hes, hmap, hsorted⟩ := (h.getSymbols_iff hlen malloc gt).mp hsymbols
  have htype := getSymEntries_type hes
  obtain ⟨symbols', hsymbols', hp⟩ :=
    printSym_entries gt htype (wellEnded_of_printSym htype hsorted)
  obtain rfl := Option.some.inj (hsorted.symm.trans hsymbols')
  have htells : List.Forall₂ (Tells f) (shown (printedOf acts)) (nodesOf t.forget.writes) :=
    (hrun.labelOf_nodes hdone hr ht).imp fun e l hl => tells_of_labelOf hmap hlow hp hl
  refine ⟨htells, fun hidle => ?_⟩
  rw [← hrun.printed_of_idle hdone hidle]
  exact htells

/-- A program that calls the function of `smallFile`, which exits. -/
def callsFMem : Mem where
  byte a := if 0xB ≤ a ∧ a < 0x30 then
    some (if a = 0xB then 0xE8 else if a = 0x10 then 0x0F else if a = 0x11 then 5 else 0)
    else none
  gap := by decide

def callsF : List Act × Son :=
  (Son.start (.exited 0) ⟨{}, {}⟩ 0).follow ⟨none, fun _ => .failed⟩
    [some (.starts ⟨{ rip := 0xB, rsp := 0x30, rax := 231 }, callsFMem⟩ SIGTRAP),
      none, none, none, none, none,
      some (.executes ⟨{ rip := 0x10, rsp := 0x28, rax := 231 }, callsFMem.pushed 0x30 0x10⟩),
      some (.stops SIGTRAP), none, none, none, none, none, none, none,
      some (.exits 0), none, none, none, none]

/-- The entry of that function; its name is ended by the first NUL of the rest of the image. -/
def smallEntry : Entry := ⟨0x10, charByte 'A', some ((smallImage.bytes.drop 113).map byteChar)⟩

def smallTable : SymTab := ⟨[smallEntry.symbol, ⟨0, 0, none⟩], rfl⟩

theorem functions_named_f :
    ∃ t, (seenOf callsF.1).foldlM (sonEvent (some smallTable) 3) {} = some t ∧
      (shown (executedOf callsF.1)).map ownTarget = [some 0x10, none] ∧
      List.Forall₂ (Tells smallFile) (shown (executedOf callsF.1)) (nodesOf t.forget.writes) := by
  have hsymbols : getSymbols .ample (fun _ _ => false) (.mapped smallImage)
      = some (some smallTable) := by
    decide +kernel
  have hrun : SonRuns (.exited 0) ⟨{}, {}⟩ 0 callsF.1 callsF.2 := Son.follow_runs _ _ _
  refine ⟨_, (Option.some_get (by decide +kernel)).symm, by decide +kernel, ?_⟩
  exact (functions_named smallImage_stores (by decide +kernel) (by decide) hsymbols hrun rfl
    (by decide) (Option.some_get (by decide +kernel)).symm).2 rfl

end Ftrace
