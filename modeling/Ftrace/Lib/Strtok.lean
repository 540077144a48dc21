/-
# Taking a string apart in place

`strtok` returns the tokens of a string one after the other, and writes a terminator behind each
of them.  Its state is the place where the next call goes on: the string is kept as what lies
before that place and what comes after it.

A caller needs two things.  The tokens are the non-empty pieces between the separators, and what
is written does not matter for them (`pieces_of_strtok`).  And the string that is left behind
ends with its first token, however many tokens are taken (`ReadsAs.first`, `ReadsAs.next`).
-/
import Mathlib.Data.List.TakeWhile

namespace Strtok

variable {α : Type}

/-- A string, and the place in it where the next call goes on. -/
structure Cursor (α : Type) where
  before : List α
  rest : List α

namespace Cursor

/-- The string as it is in memory. -/
def buf (c : Cursor α) : List α := c.before ++ c.rest

/-- A string that no token has been taken of. -/
def start (s : List α) : Cursor α := ⟨[], s⟩

end Cursor

variable (sep : α → Bool) (z : α)

/-- One call: the token, and where the next call goes on.  Separators are passed over first; if
none follows the token, nothing is written. -/
def strtok (c : Cursor α) : Option (List α × Cursor α) :=
  let lead := c.rest.takeWhile sep
  match c.rest.dropWhile sep with
  | [] => none
  | a :: s =>
    let token := (a :: s).takeWhile fun b => !sep b
    match (a :: s).dropWhile fun b => !sep b with
    | [] => some (token, ⟨c.before ++ lead ++ token, []⟩)
    | _ :: rest => some (token, ⟨c.before ++ lead ++ token ++ [z], rest⟩)

/-- The pieces between the separators, without the empty ones. -/
def pieces (s : List α) : List (List α) := (s.splitOnP sep).filter fun p => !p.isEmpty

/-- A string up to the end of its first piece. -/
def firstPiece (s : List α) : List α :=
  s.takeWhile sep ++ (s.dropWhile sep).takeWhile fun b => !sep b

/-- The string in memory reads as `p`: a terminator has been written behind it, or it is all
there is and all of it has been taken. -/
def ReadsAs (p : List α) (c : Cursor α) : Prop :=
  p ++ [z] <+: c.before ∨ c = ⟨p, []⟩

variable {sep z}

/-! ## 1. One call -/

/-- What stops `dropWhile` does not pass. -/
theorem not_of_dropWhile_cons {p : α → Bool} {s t : List α} {a : α} (h : s.dropWhile p = a :: t) :
    p a = false := by
  have hhead := List.head_dropWhile_not p (l := s) (by simp [h])
  simpa only [h, List.head_cons] using hhead

theorem strtok_eq_none {c : Cursor α} (h : strtok sep z c = none) : ∀ a ∈ c.rest, sep a = true := by
  simp only [strtok] at h
  split at h
  · rename_i hdrop
    exact List.dropWhile_eq_nil_iff.mp hdrop
  · split at h <;> cases h

/-- **What a call does that returns a token.** -/
theorem strtok_eq_some {c c' : Cursor α} {t : List α} (h : strtok sep z c = some (t, c')) :
    ∃ lead, (∀ a ∈ lead, sep a = true) ∧ t ≠ [] ∧ (∀ a ∈ t, sep a = false) ∧
      firstPiece sep c.rest = lead ++ t ∧
      (c.rest = lead ++ t ∧ c' = ⟨c.before ++ lead ++ t, []⟩ ∨
        ∃ d rest, sep d = true ∧ c.rest = lead ++ t ++ d :: rest ∧
          c' = ⟨c.before ++ lead ++ t ++ [z], rest⟩) := by
  have hsplit := List.takeWhile_append_dropWhile (p := sep) (l := c.rest)
  simp only [strtok] at h
  split at h
  · cases h
  · rename_i a s hs
    have ha : sep a = false := not_of_dropWhile_cons hs
    have hne : (a :: s).takeWhile (fun b => !sep b) ≠ [] := by
      simp [ha]
    have htoken : ∀ b ∈ (a :: s).takeWhile (fun b => !sep b), sep b = false := by
      intro b hb
      simpa using List.mem_takeWhile_imp hb
    have htail := List.takeWhile_append_dropWhile (p := fun b => !sep b) (l := a :: s)
    have hfirst : firstPiece sep c.rest
        = c.rest.takeWhile sep ++ (a :: s).takeWhile fun b => !sep b := by rw [firstPiece, hs]
    rw [hs] at hsplit
    refine ⟨c.rest.takeWhile sep, fun b hb => List.mem_takeWhile_imp hb, ?_⟩
    split at h
    · rename_i hend
      rw [hend, List.append_nil] at htail
      obtain ⟨rfl, rfl⟩ := Prod.mk.inj (Option.some.inj h)
      refine ⟨hne, htoken, hfirst, .inl ⟨?_, rfl⟩⟩
      rw [htail, hsplit]
    · rename_i d rest hend
      have hd : sep d = true := by simpa using not_of_dropWhile_cons hend
      rw [hend] at htail
      obtain ⟨rfl, rfl⟩ := Prod.mk.inj (Option.some.inj h)
      refine ⟨hne, htoken, hfirst, .inr ⟨d, rest, hd, ?_, rfl⟩⟩
      rw [List.append_assoc, htail, hsplit]

/-- A call moves on. -/
theorem length_rest_lt {c c' : Cursor α} {t : List α} (h : strtok sep z c = some (t, c')) :
    c'.rest.length < c.rest.length := by
  obtain ⟨lead, -, hne, -, -, ⟨hrest, rfl⟩ | ⟨d, rest, -, hrest, rfl⟩⟩ := strtok_eq_some h
  · have hpos := List.length_pos_iff.mpr hne
    simp only [hrest, List.length_append, List.length_nil]
    omega
  · simp only [hrest, List.length_append, List.length_cons]
    omega

/-- A call leaves alone what lies before the place where it goes on. -/
theorem before_grows {c c' : Cursor α} {t : List α} (h : strtok sep z c = some (t, c')) :
    c.before <+: c'.before := by
  obtain ⟨lead, -, -, -, -, ⟨-, rfl⟩ | ⟨d, rest, -, -, rfl⟩⟩ := strtok_eq_some h
  · simp only [List.append_assoc]
    exact List.prefix_append _ _
  · simp only [List.append_assoc]
    exact List.prefix_append _ _

/-! ## 2. The tokens -/

/-- The pieces on the two sides of a separator. -/
theorem pieces_append_cons {d : α} (hd : sep d = true) (s t : List α) :
    pieces sep (s ++ d :: t) = pieces sep s ++ pieces sep t := by
  unfold pieces
  rw [List.splitOnP_append_cons s t hd, List.filter_append]

theorem pieces_nil : pieces sep [] = [] := rfl

/-- Separators make no piece. -/
theorem pieces_append_of_forall {lead : List α} (h : ∀ a ∈ lead, sep a = true) (s : List α) :
    pieces sep (lead ++ s) = pieces sep s := by
  induction lead with
  | nil => rfl
  | cons a lead ih =>
    have hcons := pieces_append_cons (h a List.mem_cons_self) [] (lead ++ s)
    rw [pieces_nil, List.nil_append, List.nil_append] at hcons
    rw [List.cons_append, hcons, ih fun b hb => h b (List.mem_cons_of_mem _ hb)]

/-- A string with no separator is one piece. -/
theorem pieces_token {t : List α} (hne : t ≠ []) (h : ∀ a ∈ t, sep a = false) :
    pieces sep t = [t] := by
  unfold pieces
  rw [List.splitOnP_eq_singleton h]
  simp [hne]

/-- There is no token if there is no piece. -/
theorem pieces_of_strtok_none {c : Cursor α} (h : strtok sep z c = none) :
    pieces sep c.rest = [] := by
  have hall := pieces_append_of_forall (strtok_eq_none h) []
  rwa [List.append_nil] at hall

/-- **A call returns the first piece**, and leaves the others. -/
theorem pieces_of_strtok {c c' : Cursor α} {t : List α} (h : strtok sep z c = some (t, c')) :
    pieces sep c.rest = t :: pieces sep c'.rest := by
  obtain ⟨lead, hlead, hne, htok, -, ⟨hrest, rfl⟩ | ⟨d, rest, hd, hrest, rfl⟩⟩ := strtok_eq_some h
  · rw [hrest, pieces_append_of_forall hlead, pieces_token hne htok, pieces_nil]
  · rw [hrest, List.append_assoc, pieces_append_of_forall hlead, pieces_append_cons hd,
      pieces_token hne htok, List.singleton_append]

/-! ## 3. The string left behind -/

theorem firstPiece_begins (s : List α) : firstPiece sep s <+: s := by
  have hsplit := List.takeWhile_append_dropWhile (p := sep) (l := s)
  have hpre := (List.prefix_append_right_inj (s.takeWhile sep)).mpr
    (List.takeWhile_prefix (l := s.dropWhile sep) fun b => !sep b)
  rwa [hsplit] at hpre

/-- After the first call the string reads as its first piece. -/
theorem ReadsAs.first {s t : List α} {c : Cursor α} (h : strtok sep z (.start s) = some (t, c)) :
    ReadsAs z (firstPiece sep s) c := by
  obtain ⟨lead, -, -, -, hfirst, hcases⟩ := strtok_eq_some h
  have hs : firstPiece sep s = lead ++ t := hfirst
  rcases hcases with ⟨-, rfl⟩ | ⟨d, rest, -, -, rfl⟩
  · exact .inr (by rw [hs]; rfl)
  · exact .inl (by rw [hs]; exact List.prefix_refl _)

/-- **No later call changes that.** -/
theorem ReadsAs.next {p t : List α} {c c' : Cursor α} (hp : ReadsAs z p c)
    (h : strtok sep z c = some (t, c')) : ReadsAs z p c' := by
  rcases hp with hp | rfl
  · exact .inl (hp.trans (before_grows h))
  · cases h

/-- A string is its first piece exactly if no separator follows the first token. -/
theorem firstPiece_eq_self_iff (s : List α) :
    firstPiece sep s = s ↔ ∀ a ∈ s.dropWhile sep, sep a = false := by
  have hsplit := List.takeWhile_append_dropWhile (p := sep) (l := s)
  calc
    firstPiece sep s = s
        ↔ firstPiece sep s = s.takeWhile sep ++ s.dropWhile sep := by rw [hsplit]
    _ ↔ (s.dropWhile sep).takeWhile (fun b => !sep b) = s.dropWhile sep :=
      List.append_right_inj _
    _ ↔ ∀ a ∈ s.dropWhile sep, sep a = false := by
      rw [List.takeWhile_eq_self_iff]
      simp only [Bool.not_eq_true']

end Strtok
