import Mathlib.Data.List.Basic

/-! # Delimited text

Lists that are cut at a delimiter. `pieces` cuts at every delimiter and is undone by `joined`;
`tokens` leaves the empty pieces out, as a reader does that takes delimiters in a row for one, and is
undone by `led`, which puts a delimiter in front of each token; `parts` cuts at doubled delimiters
first, and is undone by `rejoined`. Each of them is computed along the first delimiter
(`delimited_induction`, `parts_induction`). -/

namespace LibCoap.Text

universe u

variable {α : Type u} [DecidableEq α] {d : α}

/-- A list has no delimiter, or it is a list without delimiter followed by the first one. -/
theorem delimited_cases (d : α) (s : List α) : d ∉ s ∨ ∃ w r, d ∉ w ∧ s = w ++ d :: r := by
  by_cases h : d ∈ s
  · obtain ⟨w, r, rfl, hw⟩ := List.eq_append_cons_of_mem h
    exact .inr ⟨w, r, hw, rfl⟩
  · exact .inl h

/-- **Induction along the delimiters** of a list. -/
@[elab_as_elim] theorem delimited_induction {motive : List α → Prop} (d : α)
    (last : ∀ w, d ∉ w → motive w) (cut : ∀ w r, d ∉ w → motive r → motive (w ++ d :: r))
    (s : List α) : motive s := by
  induction hn : s.length using Nat.strongRecOn generalizing s with
  | ind n ih =>
    rcases delimited_cases d s with h | ⟨w, r, hw, rfl⟩
    · exact last s h
    · refine cut w r hw (ih r.length ?_ r rfl)
      rw [← hn, List.length_append, List.length_cons]
      omega

/-! ## Pieces -/

/-- The pieces between the delimiters; there is one more of them than delimiters. -/
def pieces (d : α) (s : List α) : List (List α) := s.splitOn d

/-- The pieces with a delimiter between any two. -/
def joined (d : α) (ws : List (List α)) : List α := [d].intercalate ws

/-- Without delimiter there is one piece. -/
theorem pieces_of_notMem {w : List α} (h : d ∉ w) : pieces d w = [w] := List.splitOn_eq_singleton h

/-- The piece in front of the first delimiter. -/
theorem pieces_cut {w : List α} (h : d ∉ w) (s : List α) :
    pieces d (w ++ d :: s) = w :: pieces d s :=
  List.splitOn_append_cons_self_of_not_mem h s

/-- There is always a piece. -/
theorem pieces_ne_nil (d : α) (s : List α) : pieces d s ≠ [] := List.splitOn_ne_nil d s

/-- The pieces, joined. -/
@[simp] theorem joined_pieces (d : α) (s : List α) : joined d (pieces d s) = s :=
  List.intercalate_splitOn d

/-- Pieces that are joined are found again. -/
theorem pieces_joined {ws : List (List α)} (hne : ws ≠ []) (h : ∀ w ∈ ws, d ∉ w) :
    pieces d (joined d ws) = ws :=
  List.splitOn_intercalate d h hne

omit [DecidableEq α] in
/-- The piece in front. -/
theorem joined_cons (w : List α) {ws : List (List α)} (h : ws ≠ []) :
    joined d (w :: ws) = w ++ d :: joined d ws := by
  rw [joined, List.intercalate_cons_of_ne_nil h, List.append_assoc]
  rfl

/-- No delimiter is left in a piece. -/
theorem notMem_of_mem_pieces {s w : List α} (h : w ∈ pieces d s) : d ∉ w := by
  induction s using delimited_induction d with
  | last s hs =>
    rw [pieces_of_notMem hs, List.mem_singleton] at h
    rwa [h]
  | cut v r hv ih =>
    rw [pieces_cut hv, List.mem_cons] at h
    rcases h with rfl | h
    · exact hv
    · exact ih h

/-- What is in a piece is in the text. -/
theorem mem_of_mem_pieces {s w : List α} {c : α} (hc : c ∈ w) (h : w ∈ pieces d s) : c ∈ s := by
  induction s using delimited_induction d with
  | last s hs =>
    rw [pieces_of_notMem hs, List.mem_singleton] at h
    exact h ▸ hc
  | cut v r hv ih =>
    rw [pieces_cut hv, List.mem_cons] at h
    rw [List.mem_append, List.mem_cons]
    rcases h with rfl | h
    · exact .inl hc
    · exact .inr (.inr (ih h))

/-! ## Tokens -/

/-- The pieces that are not empty. -/
def tokens (d : α) (s : List α) : List (List α) := (pieces d s).filter (· ≠ [])

/-- The tokens with a delimiter in front of each. -/
def led (d : α) (ws : List (List α)) : List α := ws.flatMap (d :: ·)

/-- What a token is: not empty, and without delimiter. -/
def IsToken (d : α) (w : List α) : Prop := w ≠ [] ∧ d ∉ w

/-- An empty list has no tokens. -/
@[simp] theorem tokens_nil (d : α) : tokens d [] = [] := by
  rw [tokens, pieces_of_notMem List.not_mem_nil]
  rfl

/-- A token is its only token. -/
theorem IsToken.tokens {w : List α} (h : IsToken d w) : tokens d w = [w] := by
  rw [Text.tokens, pieces_of_notMem h.2, List.filter_cons_of_pos (by simpa using h.1)]
  rfl

/-- **Tokens are cut at a delimiter.** -/
theorem tokens_append (d : α) (s t : List α) :
    tokens d (s ++ d :: t) = tokens d s ++ tokens d t := by
  have hsplit : pieces d (s ++ d :: t) = pieces d s ++ pieces d t :=
    List.splitOn_append_cons_self s t
  rw [tokens, tokens, tokens, hsplit, List.filter_append]

/-- A delimiter in front belongs to no token. -/
@[simp] theorem tokens_cons_self (d : α) (s : List α) : tokens d (d :: s) = tokens d s := by
  simpa using tokens_append d [] s

/-- The members of `tokens` are tokens. -/
theorem isToken_of_mem_tokens {s w : List α} (h : w ∈ tokens d s) : IsToken d w := by
  obtain ⟨hmem, hne⟩ := List.mem_filter.mp h
  exact ⟨by simpa using hne, notMem_of_mem_pieces hmem⟩

/-- **Tokens that are led by delimiters are found again.** -/
theorem tokens_led {ws : List (List α)} (h : ∀ w ∈ ws, IsToken d w) : tokens d (led d ws) = ws := by
  induction ws with
  | nil => exact tokens_nil d
  | cons w ws ih =>
    obtain ⟨hw, hws⟩ := List.forall_mem_cons.mp h
    have hrest := ih hws
    cases ws with
    | nil => simpa [led] using hw.tokens
    | cons v ws =>
      have hled : led d (w :: v :: ws) = d :: (w ++ d :: (v ++ led d ws)) := by simp [led]
      have hled' : led d (v :: ws) = d :: (v ++ led d ws) := by simp [led]
      rw [hled', tokens_cons_self] at hrest
      rw [hled, tokens_cons_self, tokens_append, hw.tokens, hrest]
      rfl

/-- Rows of tokens are told apart. -/
theorem led_inj {ws vs : List (List α)} (hw : ∀ w ∈ ws, IsToken d w) (hv : ∀ v ∈ vs, IsToken d v) :
    led d ws = led d vs ↔ ws = vs := by
  constructor
  · intro h
    rw [← tokens_led hw, h, tokens_led hv]
  · rintro rfl
    rfl

/-- **A text that goes on** behind its last piece has more tokens, or another last one. -/
theorem tokens_goes_on {c : α} (hc : c ≠ d) (s t : List α)
    (h : (tokens d (s ++ c :: t)).length = (tokens d s).length) :
    (tokens d (s ++ c :: t)).getLast? ≠ (tokens d s).getLast? := by
  induction s using delimited_induction d with
  | last w hw =>
    -- the first token of the longer text is `w` and a piece more
    obtain ⟨y, others, hy, htokens⟩ : ∃ y others, c ∈ y ∧
        tokens d (w ++ c :: t) = (w ++ y) :: others := by
      rcases delimited_cases d (c :: t) with hlast | ⟨y, r, hy, hcut⟩
      · have htoken : IsToken d (w ++ c :: t) :=
          ⟨by simp, by simpa [not_or] using ⟨hw, by simpa using hlast⟩⟩
        exact ⟨c :: t, [], List.mem_cons_self, htoken.tokens⟩
      · cases y with
        | nil => exact absurd (List.cons.inj hcut).1 hc
        | cons c' y =>
          obtain rfl := (List.cons.inj hcut).1
          have htoken : IsToken d (w ++ c :: y) :=
            ⟨by simp, by simpa [not_or] using ⟨hw, by simpa using hy⟩⟩
          refine ⟨c :: y, tokens d r, List.mem_cons_self, ?_⟩
          rw [hcut, ← List.append_assoc, tokens_append, htoken.tokens]
          rfl
    rw [htokens] at h ⊢
    by_cases hne : w = []
    · rw [hne, tokens_nil] at h
      cases h
    · have htoken : IsToken d w := ⟨hne, hw⟩
      rw [htoken.tokens] at h ⊢
      obtain rfl : others = [] := by simpa using h
      intro hsame
      obtain rfl : y = [] := by simpa using hsame
      cases hy
  | cut w r hw ih =>
    rw [List.append_assoc, List.cons_append, tokens_append, tokens_append] at h ⊢
    rw [List.length_append, List.length_append] at h
    have hrest := ih (by omega)
    rw [List.getLast?_append, List.getLast?_append]
    -- the last tokens are those of the rest, unless it has none at all
    cases hr : tokens d r with
    | nil =>
      rw [hr] at h hrest
      have hnone : tokens d (r ++ c :: t) = [] := by simpa using h
      exact absurd (by rw [hnone]) hrest
    | cons a as =>
      rw [hr] at h hrest
      cases hr' : tokens d (r ++ c :: t) with
      | nil =>
        rw [hr'] at h
        simp at h
      | cons b bs =>
        rw [hr'] at hrest
        simp only [List.getLast?_cons, Option.some_or] at hrest ⊢
        exact hrest

/-! ## Spans -/

/-- What is between the doubled delimiters, which are found from the left. -/
def spans (d : α) : List α → List (List α)
  | [] => [[]]
  | [x] => [[x]]
  | x :: y :: s =>
    if x = d ∧ y = d then [] :: spans d s else (spans d (y :: s)).modifyHead (x :: ·)

/-- There is always a span. -/
theorem spans_ne_nil (d : α) (s : List α) : spans d s ≠ [] := by
  fun_induction spans d s with
  | case1 => exact List.cons_ne_nil _ _
  | case2 => exact List.cons_ne_nil _ _
  | case3 => exact List.cons_ne_nil _ _
  | case4 x y s _ ih => simpa using ih

/-- A character that does not begin a doubled delimiter is in the first span. -/
theorem spans_cons {x : α} {s : List α} (h : x = d → s.head? ≠ some d) :
    spans d (x :: s) = (spans d s).modifyHead (x :: ·) := by
  cases s with
  | nil => rfl
  | cons y s =>
    have hsingle : ¬(x = d ∧ y = d) := fun hboth => h hboth.1 (by simp [hboth.2])
    rw [spans, if_neg hsingle]

/-- Characters in front of the first delimiter. -/
theorem spans_append {w : List α} (hw : d ∉ w) (s : List α) :
    spans d (w ++ s) = (spans d s).modifyHead (w ++ ·) := by
  induction w with
  | nil =>
    rw [List.nil_append]
    cases spans d s <;> rfl
  | cons x w ih =>
    rw [List.mem_cons, not_or] at hw
    rw [List.cons_append, spans_cons (fun hx => absurd hx.symm hw.1), ih hw.2]
    cases spans d s <;> rfl

/-! ## Parts -/

/-- The spans, each in pieces. -/
def parts (d : α) (s : List α) : List (List (List α)) := (spans d s).map (pieces d)

/-- The parts, put together again. -/
def rejoined (d : α) (ps : List (List (List α))) : List α := [d, d].intercalate (ps.map (joined d))

/-- There is always a part. -/
theorem parts_ne_nil (d : α) (s : List α) : parts d s ≠ [] := by
  rw [parts, Ne, List.map_eq_nil_iff]
  exact spans_ne_nil d s

/-- There is a piece in each part. -/
theorem ne_nil_of_mem_parts {s : List α} {F : List (List α)} (h : F ∈ parts d s) : F ≠ [] := by
  obtain ⟨v, -, rfl⟩ := List.mem_map.mp h
  exact pieces_ne_nil d v

/-- Without delimiter there is one part, of one piece. -/
theorem parts_of_notMem {w : List α} (h : d ∉ w) : parts d w = [[w]] := by
  have hspans : spans d w = [w] := by
    have hall := spans_append h []
    rwa [List.append_nil, spans, List.modifyHead_cons, List.append_nil] at hall
  rw [parts, hspans, List.map_singleton, pieces_of_notMem h]

/-- A doubled delimiter ends a part. -/
theorem parts_double {w : List α} (h : d ∉ w) (r : List α) :
    parts d (w ++ d :: d :: r) = [w] :: parts d r := by
  rw [parts, spans_append h, spans, if_pos ⟨rfl, rfl⟩, List.modifyHead_cons, List.append_nil,
    List.map_cons, pieces_of_notMem h, parts]

/-- A single delimiter ends a piece. -/
theorem parts_single {w r : List α} (h : d ∉ w) (hr : r.head? ≠ some d) :
    parts d (w ++ d :: r) = (parts d r).modifyHead (w :: ·) := by
  rw [parts, spans_append h, spans_cons (fun _ => hr), parts]
  cases spans d r with
  | nil => rfl
  | cons v vs => simp only [List.modifyHead_cons, List.map_cons, pieces_cut h]

/-- **Induction along single and doubled delimiters.** -/
@[elab_as_elim] theorem parts_induction {motive : List α → Prop} (d : α)
    (last : ∀ w, d ∉ w → motive w)
    (double : ∀ w r, d ∉ w → motive r → motive (w ++ d :: d :: r))
    (single : ∀ w r, d ∉ w → r.head? ≠ some d → motive r → motive (w ++ d :: r))
    (s : List α) : motive s := by
  induction hn : s.length using Nat.strongRecOn generalizing s with
  | ind n ih =>
    rcases delimited_cases d s with h | ⟨w, r, hw, rfl⟩
    · exact last s h
    · rw [List.length_append, List.length_cons] at hn
      by_cases hr : r.head? = some d
      · obtain ⟨r', rfl⟩ : ∃ r', r = d :: r' := by
          cases r with
          | nil => cases hr
          | cons x r => exact ⟨r, by simpa using hr⟩
        rw [List.length_cons] at hn
        exact double w r' hw (ih r'.length (by omega) r' rfl)
      · exact single w r hw hr (ih r.length (by omega) r rfl)

/-- A text that does not begin with a delimiter has a first piece. -/
theorem parts_head {s : List α} (hne : s ≠ []) (hs : s.head? ≠ some d) :
    ∃ v F ps, parts d s = (v :: F) :: ps ∧ v ≠ [] := by
  induction s using parts_induction d with
  | last w hw => exact ⟨w, [], [], parts_of_notMem hw, hne⟩
  | double w r hw _ =>
    refine ⟨w, [], parts d r, parts_double hw r, ?_⟩
    rintro rfl
    exact hs rfl
  | single w r hw hr _ =>
    obtain ⟨F, ps, hparts⟩ := List.exists_cons_of_ne_nil (parts_ne_nil d r)
    refine ⟨w, F, ps, ?_, ?_⟩
    · rw [parts_single hw hr, hparts, List.modifyHead_cons]
    · rintro rfl
      exact hs rfl

/-- The parts, put together, are the text. -/
@[simp] theorem rejoined_parts (d : α) (s : List α) : rejoined d (parts d s) = s := by
  induction s using parts_induction d with
  | last w hw => simp [parts_of_notMem hw, rejoined, joined]
  | double w r hw ih =>
    have hne : (parts d r).map (joined d) ≠ [] := by simp [parts_ne_nil]
    rw [rejoined] at ih
    rw [parts_double hw, rejoined, List.map_cons, List.intercalate_cons_of_ne_nil hne, ih]
    simp [joined]
  | single w r hw hr ih =>
    rw [parts_single hw hr]
    cases hparts : parts d r with
    | nil => exact absurd hparts (parts_ne_nil d r)
    | cons F ps =>
      have hF : F ≠ [] := ne_nil_of_mem_parts (hparts ▸ List.mem_cons_self)
      rw [hparts, rejoined, List.map_cons] at ih
      rw [List.modifyHead_cons, rejoined, List.map_cons, joined_cons w hF, ← ih]
      cases ps with
      | nil => simp
      | cons G ps => simp [List.intercalate_cons_of_ne_nil]

omit [DecidableEq α] in
/-- Joined pieces begin as the first one does. -/
theorem head_joined {v : List α} (h : IsToken d v) (ws : List (List α)) (r : List α) :
    (joined d (v :: ws) ++ r).head? ≠ some d := by
  obtain ⟨x, v, rfl⟩ := List.exists_cons_of_ne_nil h.1
  obtain ⟨t, ht⟩ : ∃ t, joined d ((x :: v) :: ws) ++ r = x :: t := by
    cases ws with
    | nil => exact ⟨v ++ r, by simp [joined]⟩
    | cons u ws =>
      rw [joined_cons _ (List.cons_ne_nil u ws)]
      exact ⟨_, rfl⟩
  rw [ht, List.head?_cons, Ne, Option.some.injEq]
  rintro rfl
  exact h.2 List.mem_cons_self

/-- Pieces that are not empty, except perhaps the first, are a part in front of a doubled
delimiter. -/
theorem parts_joined_double {w : List α} {ws : List (List α)} (hw : d ∉ w)
    (h : ∀ v ∈ ws, IsToken d v) (r : List α) :
    parts d (joined d (w :: ws) ++ d :: d :: r) = (w :: ws) :: parts d r := by
  induction ws generalizing w with
  | nil => simpa [joined] using parts_double hw r
  | cons v ws ih =>
    obtain ⟨hv, hws⟩ := List.forall_mem_cons.mp h
    rw [joined_cons w (List.cons_ne_nil v ws), List.append_assoc, List.cons_append,
      parts_single hw (head_joined hv ws _), ih hv.2 hws, List.modifyHead_cons]

/-- Such pieces are the part at the end. -/
theorem parts_joined {w : List α} {ws : List (List α)} (hw : d ∉ w) (h : ∀ v ∈ ws, IsToken d v) :
    parts d (joined d (w :: ws)) = [w :: ws] := by
  induction ws generalizing w with
  | nil => simpa [joined] using parts_of_notMem hw
  | cons v ws ih =>
    obtain ⟨hv, hws⟩ := List.forall_mem_cons.mp h
    have hhead := head_joined hv ws []
    rw [List.append_nil] at hhead
    rw [joined_cons w (List.cons_ne_nil v ws), parts_single hw hhead, ih hv.2 hws,
      List.modifyHead_cons]

end LibCoap.Text
