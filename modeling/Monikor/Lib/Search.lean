/-
Searches in a text, as string.h has them.

A text is the bytes up to its terminator. A search answers with what is in
front of the first match and what is behind it, so a match is where two
parts of the text meet.
-/
import Mathlib.Data.List.Basic
import Mathlib.Data.List.Infix
import Mathlib.Data.List.TakeWhile

namespace Search

variable {α : Type*} {c sep : α} {front rest pat s a b : List α}
  {words : List (List α)}

-- ===================================================================== words

/-- Words, each in front of a separator. -/
def joined (sep : α) (words : List (List α)) : List α :=
  words.flatMap (· ++ [sep])

@[simp] theorem joined_nil : joined sep [] = [] := rfl

@[simp] theorem joined_cons (w : List α) (words : List (List α)) :
    joined sep (w :: words) = w ++ sep :: joined sep words := by
  simp [joined]

theorem joined_append (words words' : List (List α)) :
    joined sep (words ++ words') = joined sep words ++ joined sep words' :=
  List.flatMap_append

/-- What is neither in the words nor in the separator. -/
theorem notMem_intercalate {between : List α} (hsep : c ∉ between)
    (hwords : ∀ w ∈ words, c ∉ w) : c ∉ between.intercalate words := by
  induction words with
  | nil => simp [List.intercalate]
  | cons w words ih =>
      have hw := hwords w (List.mem_cons_self ..)
      cases words with
      | nil => simpa [List.intercalate] using hw
      | cons w₁ words =>
          have hrest := ih fun w hw => hwords w (List.mem_cons_of_mem _ hw)
          rw [List.intercalate_cons_cons]
          simp [hw, hsep, hrest]

/-- A pattern without separators matches in front of a separator. -/
theorem prefix_sep (hsep : sep ∉ pat) (h : pat <+: a ++ sep :: b) :
    pat <+: a := by
  rcases List.prefix_or_prefix_of_prefix h (List.prefix_append a _) with h' | h'
  · exact h'
  · obtain ⟨c, rfl⟩ := h'
    rw [List.prefix_append_right_inj] at h
    cases c with
    | nil => simp
    | cons x c =>
        obtain rfl : x = sep := (List.cons_prefix_cons.mp h).1
        exact absurd (by simp) hsep

/-- A pattern whose first symbol is nowhere else in it does not match across a
place where it matches. -/
theorem prefix_marked (hc : c ∉ pat) (ha : a ≠ [])
    (h : c :: pat <+: a ++ c :: b) : c :: pat <+: a := by
  obtain ⟨x, a, rfl⟩ := List.exists_cons_of_ne_nil ha
  rw [List.cons_append, List.cons_prefix_cons] at h
  rw [List.cons_prefix_cons]
  exact ⟨h.1, prefix_sep hc h.2⟩

/-- A pattern without separators is on one side of a separator. -/
theorem infix_sep (hsep : sep ∉ pat) (h : pat <:+: a ++ sep :: b) :
    pat <:+: a ∨ pat <:+: b := by
  obtain ⟨t, hpre, hsuf⟩ := List.infix_iff_prefix_suffix.mp h
  rcases List.suffix_or_suffix_of_suffix hsuf (List.suffix_append a (sep :: b))
    with hb | hb
  · rcases List.suffix_cons_iff.mp hb with rfl | hb
    · have hnil : pat <+: [] := prefix_sep (a := []) hsep hpre
      rw [List.prefix_nil.mp hnil]
      exact .inl List.nil_infix
    · exact .inr (hpre.isInfix.trans hb.isInfix)
  · obtain ⟨u, rfl⟩ := hb
    have hu : u <:+ a := by
      obtain ⟨v, hv⟩ := hsuf
      rw [← List.append_assoc] at hv
      exact ⟨v, List.append_cancel_right hv⟩
    exact .inl ((prefix_sep hsep hpre).isInfix.trans hu.isInfix)

/-- A pattern without separators that ends a text is behind the last
separator. -/
theorem suffix_sep (hsep : sep ∉ pat) (h : pat <:+ a ++ sep :: b) :
    pat <:+ b := by
  rcases List.suffix_or_suffix_of_suffix h (List.suffix_append a (sep :: b))
    with hb | hb
  · rcases List.suffix_cons_iff.mp hb with rfl | hb
    · exact absurd (List.mem_cons_self ..) hsep
    · exact hb
  · exact absurd (hb.subset (List.mem_cons_self ..)) hsep

theorem suffix_joined (hsep : sep ∉ pat) (words : List (List α))
    (h : pat <:+ joined sep words ++ b) : pat <:+ b := by
  rcases List.eq_nil_or_concat words with rfl | ⟨front, w, rfl⟩
  · simpa using h
  · apply suffix_sep (a := joined sep front ++ w) hsep
    simpa [joined_append] using h

/-- A pattern without separators is in no line, if it is in none of the
words. -/
theorem not_infix_line (hsep : sep ∉ pat) (ha : ¬ pat <:+: a)
    (hwords : ∀ w ∈ words, ¬ pat <:+: w) :
    ¬ pat <:+: a ++ words.flatMap (sep :: ·) := by
  induction words generalizing a with
  | nil => simpa using ha
  | cons w words ih =>
      intro h
      rw [List.flatMap_cons, List.cons_append] at h
      rcases infix_sep hsep h with h | h
      · exact ha h
      · exact ih (hwords w (by simp)) (fun v hv => hwords v (by simp [hv])) h

/-- A line up to one of its words. -/
theorem line_split (a : List α) (front : List (List α)) (w : List α)
    (back : List (List α)) :
    a ++ (front ++ w :: back).flatMap (sep :: ·)
      = joined sep (a :: front) ++ (w ++ back.flatMap (sep :: ·)) := by
  induction front generalizing a with
  | nil => simp
  | cons v front ih =>
      have htail := ih v
      rw [joined_cons, joined_cons] at *
      simp only [List.cons_append, List.flatMap_cons,
        List.append_assoc] at htail ⊢
      rw [htail]

-- ================================================================== searches

variable [DecidableEq α]

/-- `strchr`: the text in front of the first `c`, and the text behind it. -/
def strchr (c : α) (s : List α) : Option (List α × List α) :=
  match s.dropWhile (· ≠ c) with
  | [] => none
  | _ :: rest => some (s.takeWhile (· ≠ c), rest)

theorem strchr_append (h : c ∉ front) (rest : List α) :
    strchr c (front ++ c :: rest) = some (front, rest) := by
  have hfront : ∀ b ∈ front, decide (b ≠ c) = true := by
    intro b hb
    have hne : b ≠ c := fun e => h (e ▸ hb)
    simpa using hne
  unfold strchr
  rw [List.dropWhile_append_of_pos hfront, List.takeWhile_append_of_pos hfront]
  simp

/-- Two texts are the same up to their first separators, and behind them. -/
theorem split_inj (ha : c ∉ a) (hb : c ∉ b) {a' b' : List α}
    (h : a ++ c :: a' = b ++ c :: b') : a = b ∧ a' = b' := by
  have hsplit := strchr_append ha a'
  rw [h, strchr_append hb b'] at hsplit
  obtain ⟨hfront, hback⟩ := Prod.mk.inj (Option.some.inj hsplit)
  exact ⟨hfront.symm, hback.symm⟩

theorem strchr_eq_none : strchr c s = none ↔ c ∉ s := by
  constructor
  case mp =>
      intro hnone hc
      obtain ⟨front, rest, rfl, hfront⟩ := List.eq_append_cons_of_mem hc
      rw [strchr_append hfront] at hnone
      cases hnone
  case mpr =>
      intro h
      have hall : s.dropWhile (· ≠ c) = [] := by
        rw [List.dropWhile_eq_nil_iff]
        intro b hb
        have hne : b ≠ c := fun e => h (e ▸ hb)
        simpa using hne
      unfold strchr
      rw [hall]

/-- A text is put together again from what a search finds. -/
theorem strchr_some (h : strchr c s = some (front, rest)) :
    s = front ++ c :: rest ∧ c ∉ front := by
  by_cases hc : c ∈ s
  case neg =>
      rw [strchr_eq_none.mpr hc] at h
      cases h
  case pos =>
      obtain ⟨front', rest', rfl, hfront⟩ := List.eq_append_cons_of_mem hc
      rw [strchr_append hfront] at h
      obtain ⟨rfl, rfl⟩ := Prod.mk.inj (Option.some.inj h)
      exact ⟨rfl, hfront⟩

/-- `strrchr`: the text in front of the last `c`, and the text behind it. -/
def strrchr (c : α) (s : List α) : Option (List α × List α) :=
  (strchr c s.reverse).map fun (behind, front) =>
    (front.reverse, behind.reverse)

theorem strrchr_append (front : List α) (h : c ∉ rest) :
    strrchr c (front ++ c :: rest) = some (front, rest) := by
  have hreverse : (front ++ c :: rest).reverse
      = rest.reverse ++ c :: front.reverse := by simp
  rw [strrchr, hreverse, strchr_append (by simpa using h)]
  simp

theorem strrchr_eq_none : strrchr c s = none ↔ c ∉ s := by
  rw [strrchr, Option.map_eq_none_iff, strchr_eq_none, List.mem_reverse]

/-- `strstr`: the text in front of the first `pat`, and the text from it
on. -/
def strstr (pat : List α) : List α → Option (List α × List α)
  | [] => if pat = [] then some ([], []) else none
  | b :: s =>
      if pat <+: b :: s then some ([], b :: s)
      else (strstr pat s).map fun (front, rest) => (b :: front, rest)

/-- The first match is where a part of the text that no match starts in ends
before one. -/
theorem strstr_append (front : List α) (hpat : pat <+: rest)
    (hfirst : ∀ i < front.length, ¬ pat <+: (front ++ rest).drop i) :
    strstr pat (front ++ rest) = some (front, rest) := by
  induction front with
  | nil =>
      cases rest with
      | nil => exact if_pos (List.prefix_nil.mp hpat)
      | cons b rest => exact if_pos hpat
  | cons b front ih =>
      have hnot : ¬ pat <+: b :: (front ++ rest) := hfirst 0 (by simp)
      have hlater : strstr pat (front ++ rest) = some (front, rest) :=
        ih fun i hi => hfirst (i + 1) (Nat.succ_lt_succ hi)
      rw [List.cons_append, strstr, if_neg hnot, hlater, Option.map_some]

/-- A match at `i` is the first one, or there is one before it. -/
theorem strstr_le (i : Nat) (h : pat <+: s.drop i) :
    ∃ front rest, strstr pat s = some (front, rest) ∧ front.length ≤ i := by
  induction s generalizing i with
  | nil =>
      rw [List.drop_nil, List.prefix_nil] at h
      exact ⟨[], [], if_pos h, Nat.zero_le i⟩
  | cons b s ih =>
      by_cases hb : pat <+: b :: s
      · exact ⟨[], b :: s, if_pos hb, Nat.zero_le i⟩
      · obtain ⟨j, rfl⟩ : ∃ j, i = j + 1 := by
          cases i with
          | zero => exact absurd h hb
          | succ j => exact ⟨j, rfl⟩
        obtain ⟨front, rest, hrun, hle⟩ := ih j h
        refine ⟨b :: front, rest, ?_, Nat.succ_le_succ hle⟩
        rw [strstr, if_neg hb, hrun, Option.map_some]

/-- What a search finds is a match, and puts the text together again. -/
theorem strstr_some (h : strstr pat s = some (front, rest)) :
    s = front ++ rest ∧ pat <+: rest := by
  induction s generalizing front with
  | nil =>
      unfold strstr at h
      split at h
      case isTrue hnil =>
          obtain ⟨rfl, rfl⟩ := Prod.mk.inj (Option.some.inj h)
          exact ⟨rfl, hnil ▸ List.prefix_rfl⟩
      case isFalse => cases h
  | cons b s ih =>
      unfold strstr at h
      split at h
      case isTrue hb =>
          obtain ⟨rfl, rfl⟩ := Prod.mk.inj (Option.some.inj h)
          exact ⟨rfl, hb⟩
      case isFalse =>
          obtain ⟨⟨front', rest'⟩, hrun, heq⟩ := Option.map_eq_some_iff.mp h
          obtain ⟨rfl, rfl⟩ := Prod.mk.inj heq
          obtain ⟨rfl, hpat⟩ := ih hrun
          exact ⟨rfl, hpat⟩

theorem strstr_eq_none : strstr pat s = none ↔ ¬ pat <:+: s := by
  constructor
  case mp =>
      rintro hnone ⟨front, back, rfl⟩
      have hmatch : pat <+: (front ++ pat ++ back).drop front.length := by
        rw [List.append_assoc, List.drop_left]
        exact List.prefix_append ..
      obtain ⟨_, _, hrun, -⟩ := strstr_le _ hmatch
      rw [hnone] at hrun
      cases hrun
  case mpr =>
      intro hnot
      rw [Option.eq_none_iff_forall_not_mem]
      rintro ⟨front, rest⟩ hrun
      obtain ⟨rfl, hpat⟩ := strstr_some hrun
      exact hnot (hpat.isInfix.trans (List.suffix_append front rest).isInfix)

theorem strstr_isSome : (strstr pat s).isSome = true ↔ pat <:+: s := by
  rw [Option.isSome_iff_ne_none, ne_eq, strstr_eq_none, not_not]

theorem exists_strstr (h : pat <:+: s) :
    ∃ front rest, strstr pat s = some (front, rest) := by
  cases hrun : strstr pat s with
  | none => exact absurd h (strstr_eq_none.mp hrun)
  | some found => exact ⟨found.1, found.2, rfl⟩

/-- What is found in a text is found in a longer one. -/
theorem strstr_append_right (h : strstr pat a = some (front, rest))
    (b : List α) : strstr pat (a ++ b) = some (front, rest ++ b) := by
  obtain ⟨rfl, hpat⟩ := strstr_some h
  rw [List.append_assoc]
  apply strstr_append _ (hpat.trans (List.prefix_append ..))
  intro i hi hmatch
  -- an earlier match ends earlier, so it is one in the shorter text
  have hshort : pat <+: (front ++ rest).drop i := by
    rw [← List.append_assoc, List.drop_append_of_le_length (by simp; omega)]
      at hmatch
    apply List.prefix_of_prefix_length_le hmatch (List.prefix_append ..)
    have hlen := hpat.length_le
    simp only [List.length_drop, List.length_append]
    omega
  obtain ⟨front', rest', hrun, hle⟩ := strstr_le i hshort
  rw [h] at hrun
  obtain ⟨rfl, -⟩ := Prod.mk.inj (Option.some.inj hrun)
  omega

/-- A search goes past a word it finds nothing in. -/
theorem strstr_word (hsep : sep ∉ pat) {w : List α} (hw : ¬ pat <:+: w)
    (b : List α) :
    strstr pat (w ++ sep :: b)
      = (strstr pat b).map fun (front, rest) => (w ++ sep :: front, rest) := by
  induction w with
  | nil =>
      have hnot : ¬ pat <+: sep :: b := by
        intro h
        have hnil : pat <+: [] := prefix_sep (a := []) hsep h
        exact hw hnil.isInfix
      rw [List.nil_append, strstr, if_neg hnot]
      rfl
  | cons x w ih =>
      have hnot : ¬ pat <+: x :: (w ++ sep :: b) := by
        intro h
        have hpre : pat <+: x :: w := prefix_sep hsep h
        exact hw hpre.isInfix
      have htail : ¬ pat <:+: w := by
        intro h
        exact hw (h.trans (List.suffix_cons x w).isInfix)
      rw [List.cons_append, strstr, if_neg hnot, ih htail, Option.map_map]
      rfl

/-- The first match is behind the words it is not in. -/
theorem strstr_behind (hsep : sep ∉ pat) (words : List (List α))
    (hwords : ∀ w ∈ words, ¬ pat <:+: w) (b : List α) :
    strstr pat (joined sep words ++ b) = (strstr pat b).map
      fun (front, rest) => (joined sep words ++ front, rest) := by
  induction words with
  | nil => simp
  | cons w words ih =>
      have htail := ih fun v hv => hwords v (by simp [hv])
      rw [joined_cons, List.append_assoc, List.cons_append,
        strstr_word hsep (hwords w (by simp)), htail, Option.map_map]
      simp [Function.comp_def]

theorem strstr_joined (hsep : sep ∉ pat) (words : List (List α))
    (hwords : ∀ w ∈ words, ¬ pat <:+: w) (hpat : pat <+: rest) :
    strstr pat (joined sep words ++ rest) = some (joined sep words, rest) := by
  have hfirst : strstr pat rest = some ([], rest) :=
    strstr_append [] hpat (by simp)
  rw [strstr_behind hsep words hwords, hfirst]
  simp

theorem strstr_joined_none (hsep : sep ∉ pat) (hne : pat ≠ [])
    (hwords : ∀ w ∈ words, ¬ pat <:+: w) :
    strstr pat (joined sep words) = none := by
  have hend := strstr_behind hsep words hwords []
  rw [List.append_nil] at hend
  rw [hend, strstr, if_neg hne, Option.map_none]

variable {β : Type*} {line : β → List α} {lines : List β} {l : β}

/-- The first match among lines is in the first of them that has one. -/
theorem strstr_lines_split (hsep : sep ∉ pat)
    (hfirst : lines.find? (pat <:+: line ·) = some l) :
    ∃ before after front rest, lines = before ++ l :: after
      ∧ strstr pat (line l) = some (front, rest)
      ∧ strstr pat (joined sep (lines.map line))
        = some (joined sep (before.map line) ++ front,
            rest ++ sep :: joined sep (after.map line)) := by
  obtain ⟨hl, before, after, rfl, hbefore⟩ :=
    List.find?_eq_some_iff_append.mp hfirst
  rw [decide_eq_true_eq] at hl
  obtain ⟨front, rest, hrun⟩ := exists_strstr hl
  have hwords : ∀ w ∈ before.map line, ¬ pat <:+: w := by
    intro w hw
    obtain ⟨k, hk, rfl⟩ := List.mem_map.mp hw
    simpa using hbefore k hk
  have hlater :=
    strstr_append_right hrun (sep :: joined sep (after.map line))
  refine ⟨before, after, front, rest, rfl, hrun, ?_⟩
  rw [List.map_append, List.map_cons, joined_append, joined_cons,
    strstr_behind hsep _ hwords, hlater]
  rfl

theorem strstr_lines (hsep : sep ∉ pat)
    (hfirst : lines.find? (pat <:+: line ·) = some l) :
    ∃ before front rest after, strstr pat (line l) = some (front, rest)
      ∧ strstr pat (joined sep (lines.map line))
        = some (joined sep before ++ front,
            rest ++ sep :: joined sep after) := by
  obtain ⟨before, after, front, rest, -, hline, hrun⟩ :=
    strstr_lines_split hsep hfirst
  exact ⟨_, front, rest, _, hline, hrun⟩

/-- The first match in a text of lines starts in line `i`, or at the end of
it. -/
def MatchIn (pat : List α) (sep : α) (lines : List (List α)) (i : Nat) : Prop :=
  ∃ front rest, strstr pat (joined sep lines) = some (front, rest)
    ∧ (joined sep (lines.take i)).length ≤ front.length
    ∧ front.length < (joined sep (lines.take (i + 1))).length

/-- There is one such line. -/
theorem MatchIn.unique {lines : List (List α)} {i j : Nat}
    (hi : MatchIn pat sep lines i) (hj : MatchIn pat sep lines j) : i = j := by
  obtain ⟨front, rest, hrun, hlow, hhigh⟩ := hi
  obtain ⟨front', rest', hrun', hlow', hhigh'⟩ := hj
  rw [hrun] at hrun'
  obtain ⟨rfl, rfl⟩ := Prod.mk.inj (Option.some.inj hrun')
  -- the lines up to a later one are not fewer
  have hmono : ∀ k n, k ≤ n → (joined sep (lines.take k)).length
      ≤ (joined sep (lines.take n)).length := by
    intro k n hkn
    have hpre := List.take_prefix_take_left (l := lines) hkn
    obtain ⟨more, hmore⟩ := hpre
    rw [← hmore, joined_append, List.length_append]
    exact Nat.le_add_right ..
  rcases Nat.lt_trichotomy i j with hlt | heq | hgt
  · have := hmono (i + 1) j hlt
    omega
  · exact heq
  · have := hmono (j + 1) i hgt
    omega

/-- The first match among lines starts in the first of them that has one. -/
theorem matchIn_first (hsep : sep ∉ pat)
    (hfirst : lines.find? (pat <:+: line ·) = some l) :
    ∃ i, lines[i]? = some l ∧ MatchIn pat sep (lines.map line) i := by
  obtain ⟨before, after, front, rest, rfl, hline, hrun⟩ :=
    strstr_lines_split hsep hfirst
  have hlen : front.length ≤ (line l).length := by
    rw [(strstr_some hline).1, List.length_append]
    exact Nat.le_add_right ..
  refine ⟨before.length, by simp, _, _, hrun, ?_, ?_⟩
  · rw [← List.map_take, List.take_left, List.length_append]
    exact Nat.le_add_right ..
  · rw [← List.map_take, List.take_length_add_append, List.map_append,
      joined_append, List.length_append, List.length_append]
    simp only [List.take_succ_cons, List.take_zero, List.map_cons,
      List.map_nil, joined_cons, joined_nil, List.length_append,
      List.length_cons, List.length_nil]
    omega

theorem strstr_lines_none (hsep : sep ∉ pat) (hne : pat ≠ [])
    (hfirst : lines.find? (pat <:+: line ·) = none) :
    strstr pat (joined sep (lines.map line)) = none := by
  apply strstr_joined_none hsep hne
  intro w hw
  obtain ⟨l, hl, rfl⟩ := List.mem_map.mp hw
  simpa using List.find?_eq_none.mp hfirst l hl

/-- A pattern that ends at a mark is found in front of the one mark of a text. -/
theorem strstr_mark (ha : c ∉ a) (hb : c ∉ b)
    (h : strstr (pat ++ [c]) (a ++ c :: b) = some (front, rest)) :
    a = front ++ pat ∧ rest = pat ++ c :: b := by
  obtain ⟨htext, after, rfl⟩ := strstr_some h
  rw [List.append_assoc, ← List.append_assoc, List.singleton_append] at htext
  obtain ⟨rfl, -, rfl⟩ := (List.append_cons_inj_of_notMem ha hb).mp htext
  exact ⟨rfl, by simp⟩

/-- A pattern that ends at a mark is in a text of one mark exactly if it ends
there. -/
theorem infix_mark (ha : c ∉ a) (hb : c ∉ b) :
    pat ++ [c] <:+: a ++ c :: b ↔ pat ++ [c] <:+ a ++ [c] := by
  constructor
  case mp =>
      intro h
      obtain ⟨front, rest, hrun⟩ := exists_strstr h
      obtain ⟨rfl, -⟩ := strstr_mark ha hb hrun
      exact ⟨front, by simp⟩
  case mpr =>
      intro h
      have hfront : a ++ [c] <+: a ++ c :: b := ⟨b, by simp⟩
      exact h.isInfix.trans hfront.isInfix

/-- A pattern whose first symbol is nowhere else in it is found behind a text
it is not in. -/
theorem strstr_marked (hc : c ∉ pat) (hfront : ¬ c :: pat <:+: front)
    (rest : List α) :
    strstr (c :: pat) (front ++ c :: (pat ++ rest))
      = some (front, c :: (pat ++ rest)) := by
  apply strstr_append
  · exact ⟨rest, rfl⟩
  · intro i hi hmatch
    rw [List.drop_append_of_le_length (Nat.le_of_lt hi)] at hmatch
    have hne : front.drop i ≠ [] := by
      rw [ne_eq, List.drop_eq_nil_iff]
      omega
    have hdrop := prefix_marked hc hne hmatch
    exact hfront (hdrop.isInfix.trans (List.drop_suffix i front).isInfix)

end Search
