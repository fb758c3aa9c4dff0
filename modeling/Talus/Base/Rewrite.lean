/-
  Talus.Base.Rewrite
  **REPLACING PATTERNS IN A TEXT, AT ONCE OR ONE AFTER THE OTHER.**

  A rule is a pattern with the text to put in its place.  `rewriteAll` reads a
  text from the left and replaces each pattern it meets; what it has put in is
  not read again.  `rewriteSeq` runs the rules one after the other over the
  whole text, so a later rule does read what an earlier one has put in.

    • `Solid`: no pattern begins inside another, so that the patterns in a text
      are disjoint pieces of it,
    • `Clear`: no pattern that meets the new text can arise around it,
    • `standing`: the rules whose pattern stands in a text;
      `rewriteSeq_eq_rewriteAll`: only these have to be solid and clear for the
      two to agree on the text,
    • `rewriteSeq_eq_iff`: running the rules one after the other is the same as
      running them at once, for every text and every order, exactly if each new
      text is clear of the other rules' patterns,
    • `Replaced`: the text with every pattern in it replaced, if they are
      disjoint,
    • `replaced_rewriteSeq_iff`: when running the rules one after the other
      gives that text,
    • `before`: the text up to the first `c` that stands in no pattern;
      `Solid.rewriteAll_before`: it is rewritten on its own.
-/
import Mathlib.Data.List.Infix
import Mathlib.Data.List.Nodup

namespace Talus.Base

open List Option

variable {α : Type}

/-- A pattern and the text to put in its place. -/
structure Rule (α : Type) where
  pattern : List α
  text : List α
  deriving DecidableEq, Repr

/-! ## §1. Patterns that do not get in each other's way. -/

variable {rules rest : List (Rule α)} {r : Rule α} {s t u v p q : List α} {c : α}

/-- `p` does not begin inside `q`, after its first place. -/
def Outside (p q : List α) : Prop :=
  ∀ u, u ≠ [] → u <:+ q → u ≠ q → ¬ u <+: p ∧ ¬ p <+: u

/-- The patterns are not empty, different, none begins another and none begins
inside another. -/
structure Solid (rules : List (Rule α)) : Prop where
  ne_nil : ∀ r ∈ rules, r.pattern ≠ []
  nodup : (rules.map Rule.pattern).Nodup
  begins : ∀ r ∈ rules, ∀ r' ∈ rules, r.pattern <+: r'.pattern → r.pattern = r'.pattern
  outside : ∀ r ∈ rules, ∀ r' ∈ rules, Outside r.pattern r'.pattern

/-- Two prefixes of one text are comparable. -/
theorem prefix_append_cases (h : p <+: u ++ t) : p <+: u ∨ u <+: p :=
  prefix_or_prefix_of_prefix h (prefix_append u t)

theorem not_prefix_append (h : ¬ u <+: p ∧ ¬ p <+: u) : ¬ p <+: u ++ t := by
  intro hpre
  rcases prefix_append_cases hpre with hle | hle
  · exact h.2 hle
  · exact h.1 hle

/-- What stands in `v ++ t` stands in `t`, or begins in `v`. -/
theorem infix_append_cases (h : p <:+: v ++ t) :
    p <:+: t ∨ ∃ u, u ≠ [] ∧ u <:+ v ∧ p <+: u ++ t := by
  induction v with
  | nil => exact .inl h
  | cons c v ih =>
    rcases infix_cons_iff.1 h with hpre | hin
    · exact .inr ⟨c :: v, by simp, suffix_rfl, hpre⟩
    · refine (ih hin).imp_right ?_
      rintro ⟨u, hu, hsuf, hpre⟩
      exact ⟨u, hu, hsuf.trans (suffix_cons c v), hpre⟩

/-- However `v` is surrounded, no `p` arises that meets it. -/
structure Clear (v p : List α) : Prop where
  /-- none begins in `v` -/
  ends : ∀ u, u ≠ [] → u <:+ v → ¬ u <+: p ∧ ¬ p <+: u
  /-- none ends in `v` -/
  starts : ∀ u, u ≠ [] → u <+: v → ¬ u <:+ p
  /-- and `v` is no part of one -/
  within : ¬ v <:+: p

namespace Solid

theorem of_subset (h : Solid rules) (hsub : rest ⊆ rules)
    (hnodup : (rest.map Rule.pattern).Nodup) : Solid rest where
  ne_nil r hr := h.ne_nil r (hsub hr)
  nodup := hnodup
  begins r hr r' hr' := h.begins r (hsub hr) r' (hsub hr')
  outside r hr r' hr' := h.outside r (hsub hr) r' (hsub hr')

theorem of_perm (h : Solid rules) (hp : rest.Perm rules) : Solid rest :=
  h.of_subset hp.subset ((hp.map Rule.pattern).nodup_iff.2 h.nodup)

theorem sublist (h : Solid rules) (hs : rest.Sublist rules) : Solid rest :=
  h.of_subset hs.subset (h.nodup.sublist (hs.map Rule.pattern))

/-- Where a pattern stands, no other begins. -/
theorem eq_of_prefix (h : Solid rules) {r' : Rule α} (hr : r ∈ rules) (hr' : r' ∈ rules)
    (hpre : r'.pattern <+: r.pattern ++ t) : r' = r := by
  refine inj_on_of_nodup_map h.nodup hr' hr ?_
  rcases prefix_append_cases hpre with hle | hle
  · exact h.begins r' hr' r hr hle
  · exact (h.begins r hr r' hr' hle).symm

/-- Nothing begins inside a pattern. -/
theorem not_within (h : Solid rules) {r' : Rule α} (hr : r ∈ rules) (hr' : r' ∈ rules) (hu : u ≠ [])
    (hsuf : u <:+ r'.pattern) (hne : u ≠ r'.pattern) : ¬ r.pattern <+: u ++ t :=
  not_prefix_append (h.outside r hr r' hr' u hu hsuf hne)

end Solid

/-! ## §2. One pass. -/

variable [DecidableEq α]

/-- The first rule whose pattern begins the text. -/
def hit (rules : List (Rule α)) (s : List α) : Option (Rule α) :=
  rules.find? fun r => r.pattern.isPrefixOf s

/-- Read on, `skip` places of a replaced pattern still to be passed over. -/
def rewriteFrom (rules : List (Rule α)) : Nat → List α → List α
  | _, [] => []
  | skip + 1, _ :: s => rewriteFrom rules skip s
  | 0, c :: s =>
    match hit rules (c :: s) with
    | some r => r.text ++ rewriteFrom rules (r.pattern.length - 1) s
    | none => c :: rewriteFrom rules 0 s

/-- Replace every pattern, from the left. -/
def rewriteAll (rules : List (Rule α)) (s : List α) : List α := rewriteFrom rules 0 s

/-- One rule after the other. -/
def rewriteSeq (rules : List (Rule α)) (s : List α) : List α :=
  rules.foldl (fun s r => rewriteAll [r] s) s

theorem rewriteFrom_eq (skip : Nat) (s : List α) :
    rewriteFrom rules skip s = rewriteAll rules (s.drop skip) := by
  induction s generalizing skip with
  | nil => cases skip <;> rfl
  | cons c s ih =>
    cases skip with
    | zero => rfl
    | succ skip => exact ih skip

@[simp] theorem rewriteAll_nil : rewriteAll rules ([] : List α) = [] := rfl

theorem rewriteAll_miss (h : hit rules (c :: s) = none) :
    rewriteAll rules (c :: s) = c :: rewriteAll rules s := by
  simp only [rewriteAll, rewriteFrom, h]

theorem rewriteAll_hit (h : hit rules (p ++ s) = some r) (hp : r.pattern = p) (hne : p ≠ []) :
    rewriteAll rules (p ++ s) = r.text ++ rewriteAll rules s := by
  cases p with
  | nil => exact absurd rfl hne
  | cons c p =>
    rw [cons_append] at h ⊢
    simp only [rewriteAll, rewriteFrom, h, hp]
    show r.text ++ rewriteFrom rules p.length (p ++ s) = _
    rw [rewriteFrom_eq, drop_left]
    rfl

theorem hit_eq_none : hit rules s = none ↔ ∀ r ∈ rules, ¬ r.pattern <+: s := by
  unfold hit
  simp [find?_eq_none]

theorem hit_mem (h : hit rules s = some r) : r ∈ rules := mem_of_find?_eq_some h

theorem hit_pattern (h : hit rules s = some r) : r.pattern <+: s := by
  have := find?_some h
  simpa using this

/-- **Reading a text**: a pattern at its head is taken whole, any other place by
itself. -/
@[elab_as_elim]
theorem hit_induction {motive : List α → Prop} (hne : ∀ r ∈ rules, r.pattern ≠ []) (s : List α)
    (nil : motive [])
    (found : ∀ r t, hit rules (r.pattern ++ t) = some r → motive t → motive (r.pattern ++ t))
    (miss : ∀ c t, hit rules (c :: t) = none → motive t → motive (c :: t)) : motive s := by
  -- induction on the length: a pattern takes more than one place at once
  induction hn : s.length using Nat.strong_induction_on generalizing s with
  | _ n ih =>
    subst hn
    cases hhit : hit rules s with
    | some r =>
      obtain ⟨t, rfl⟩ := hit_pattern hhit
      have hpos := length_pos_of_ne_nil (hne r (hit_mem hhit))
      exact found r t hhit (ih t.length (by rw [length_append]; omega) t rfl)
    | none =>
      cases s with
      | nil => exact nil
      | cons c t => exact miss c t hhit (ih t.length (by simp) t rfl)

/-- No rule applies within `v`, whatever follows: `v` is passed through. -/
theorem rewriteAll_append (h : ∀ r ∈ rules, ∀ u, u ≠ [] → u <:+ v → ¬ r.pattern <+: u ++ t) :
    rewriteAll rules (v ++ t) = v ++ rewriteAll rules t := by
  induction v with
  | nil => rfl
  | cons c v ih =>
    have hmiss : hit rules (c :: (v ++ t)) = none :=
      hit_eq_none.2 fun r hr => h r hr (c :: v) (by simp) suffix_rfl
    rw [cons_append, rewriteAll_miss hmiss, ih, cons_append]
    intro r hr u hu hsuf
    exact h r hr u hu (hsuf.trans (suffix_cons c v))

@[simp] theorem rewriteAll_no_rules (s : List α) : rewriteAll [] s = s := by
  induction s with
  | nil => rfl
  | cons c s ih => rw [rewriteAll_miss rfl, ih]

namespace Solid

/-- Where a pattern stands, its rule applies. -/
theorem hit_append (h : Solid rules) (hr : r ∈ rules) (t : List α) :
    hit rules (r.pattern ++ t) = some r := by
  cases hhit : hit rules (r.pattern ++ t) with
  | none => exact absurd (prefix_append r.pattern t) (hit_eq_none.1 hhit r hr)
  | some r' => rw [h.eq_of_prefix hr (hit_mem hhit) (hit_pattern hhit)]

theorem rewriteAll_pattern (h : Solid rules) (hr : r ∈ rules) (t : List α) :
    rewriteAll rules (r.pattern ++ t) = r.text ++ rewriteAll rules t :=
  rewriteAll_hit (h.hit_append hr t) rfl (h.ne_nil r hr)

/-- A pattern whose rule is not among `rest` is passed through. -/
theorem rewriteAll_foreign (h : Solid rules) (hsub : rest ⊆ rules) (hr : r ∈ rules)
    (hout : r ∉ rest) (t : List α) :
    rewriteAll rest (r.pattern ++ t) = r.pattern ++ rewriteAll rest t := by
  refine rewriteAll_append fun r₁ hr₁ u hu hsuf => ?_
  by_cases hwhole : u = r.pattern
  · subst hwhole
    exact fun hpre => hout (h.eq_of_prefix hr (hsub hr₁) hpre ▸ hr₁)
  · exact h.not_within (hsub hr₁) hr hu hsuf hwhole

end Solid

/-! ## §3. One rule after the other. -/

/-- A clear text is passed through. -/
theorem rewriteAll_clear (h : ∀ r ∈ rules, Clear v r.pattern) (t : List α) :
    rewriteAll rules (v ++ t) = v ++ rewriteAll rules t :=
  rewriteAll_append fun r hr u hu hsuf => not_prefix_append ((h r hr).ends u hu hsuf)

/-- A pattern of another rule does not arise by one rule: if its rest `q` is
there after the rule, it was there before. -/
theorem prefix_of_prefix_rewriteAll (hne : r.pattern ≠ []) (hclear : Clear r.text p) (hu : u ≠ [])
    (hp : u ++ q = p) (hq : q <+: rewriteAll [r] s) : q <+: s := by
  induction s generalizing u q with
  | nil => exact hq
  | cons c s ih =>
    cases q with
    | nil => exact nil_prefix
    | cons a q =>
      cases hhit : hit [r] (c :: s) with
      | none =>
        rw [rewriteAll_miss hhit, cons_prefix_cons] at hq
        obtain ⟨rfl, hq⟩ := hq
        rw [cons_prefix_cons]
        refine ⟨rfl, ih (u := u ++ [a]) (by simp) ?_ hq⟩
        rw [append_assoc]
        exact hp
      | some r' =>
        -- the rest would end in the new text, or contain it
        cases mem_singleton.1 (hit_mem hhit)
        obtain ⟨t, ht⟩ := hit_pattern hhit
        rw [← ht] at hhit hq
        rw [rewriteAll_hit hhit rfl hne] at hq
        have hsuf : a :: q <:+ p := ⟨u, hp⟩
        rcases prefix_append_cases hq with hle | hle
        · exact absurd hsuf (hclear.starts _ (by simp) hle)
        · exact absurd (hle.isInfix.trans hsuf.isInfix) hclear.within

/-- **One rule first, then the others**, if its text is clear of them. -/
theorem rewriteAll_cons (h : Solid (r :: rest)) (hclear : ∀ r' ∈ rest, Clear r.text r'.pattern)
    (s : List α) : rewriteAll rest (rewriteAll [r] s) = rewriteAll (r :: rest) s := by
  have hr : r ∈ r :: rest := mem_cons_self
  have hone : Solid [r] := h.sublist (by simp)
  have hrest : Solid rest := h.sublist (sublist_cons_self r rest)
  induction s using hit_induction h.ne_nil with
  | nil => rfl
  | found r' t hhit ih =>
    have hr' := hit_mem hhit
    rw [h.rewriteAll_pattern hr']
    rcases mem_cons.1 hr' with rfl | hmem
    · rw [hone.rewriteAll_pattern (mem_singleton_self _), rewriteAll_clear hclear, ih]
    · -- the pattern of another rule is left for it
      have hout : r' ∉ [r] := by
        intro hin
        cases mem_singleton.1 hin
        have hnodup := h.nodup
        rw [map_cons, nodup_cons] at hnodup
        exact hnodup.1 (mem_map_of_mem hmem)
      rw [h.rewriteAll_foreign (by simp) hr' hout, hrest.rewriteAll_pattern hmem, ih]
  | miss c s hhit ih =>
    have hnone := hit_eq_none.1 hhit
    have hmiss : hit [r] (c :: s) = none := hit_eq_none.2 fun r₁ hr₁ => by
      cases mem_singleton.1 hr₁
      exact hnone r hr
    have hmiss' : hit rest (c :: rewriteAll [r] s) = none := by
      refine hit_eq_none.2 fun r' hr' hpre => ?_
      refine hnone r' (mem_cons_of_mem r hr') ?_
      obtain ⟨a, q, hp⟩ := exists_cons_of_ne_nil (hrest.ne_nil r' hr')
      rw [hp, cons_prefix_cons] at hpre ⊢
      refine ⟨hpre.1, ?_⟩
      exact prefix_of_prefix_rewriteAll (u := [a]) (h.ne_nil r hr) (hclear r' hr')
        (by simp) hp.symm hpre.2
    rw [rewriteAll_miss hhit, rewriteAll_miss hmiss, rewriteAll_miss hmiss', ih]

/-- Only what hits where in the text matters. -/
theorem rewriteAll_congr (h : ∀ t, t <:+: s → hit rules t = hit rest t) :
    rewriteAll rules s = rewriteAll rest s := by
  suffices hfrom : ∀ skip, rewriteFrom rules skip s = rewriteFrom rest skip s from hfrom 0
  induction s with
  | nil => intro skip; cases skip <;> rfl
  | cons c s ih =>
    intro skip
    have hrest := ih fun t ht => h t (ht.trans (suffix_cons c s).isInfix)
    cases skip with
    | zero => simp only [rewriteFrom, h (c :: s) infix_rfl, hrest]
    | succ skip => exact hrest skip

/-- At once, the order of the rules does not matter. -/
theorem Solid.rewriteAll_perm (h : Solid rules) (hp : rest.Perm rules) (s : List α) :
    rewriteAll rest s = rewriteAll rules s := by
  refine rewriteAll_congr fun s _ => ?_
  cases hhit : hit rules s with
  | none => exact hit_eq_none.2 fun r hr => hit_eq_none.1 hhit r (hp.mem_iff.1 hr)
  | some r =>
    obtain ⟨t, rfl⟩ := hit_pattern hhit
    exact (h.of_perm hp).hit_append (hp.mem_iff.2 (hit_mem hhit)) t

/-- The rules that change something. -/
def effective (rules : List (Rule α)) : List (Rule α) :=
  rules.filter fun r => r.text ≠ r.pattern

theorem mem_effective : r ∈ effective rules ↔ r ∈ rules ∧ r.text ≠ r.pattern := by
  unfold effective
  rw [mem_filter, decide_eq_true_eq]

theorem Solid.rewriteAll_effective (h : Solid rules) (s : List α) :
    rewriteAll (effective rules) s = rewriteAll rules s := by
  have hsub : effective rules ⊆ rules := fun r hr => (mem_effective.1 hr).1
  have heff : Solid (effective rules) := h.sublist filter_sublist
  induction s using hit_induction h.ne_nil with
  | nil => rfl
  | found r t hhit ih =>
    have hr := hit_mem hhit
    rw [h.rewriteAll_pattern hr]
    by_cases hsame : r.text = r.pattern
    · have hout : r ∉ effective rules := fun hmem => (mem_effective.1 hmem).2 hsame
      rw [h.rewriteAll_foreign hsub hr hout, ih, hsame]
    · rw [heff.rewriteAll_pattern (mem_effective.2 ⟨hr, hsame⟩), ih]
  | miss c s hhit ih =>
    have hmiss : hit (effective rules) (c :: s) = none :=
      hit_eq_none.2 fun r hr => hit_eq_none.1 hhit r (hsub hr)
    rw [rewriteAll_miss hhit, rewriteAll_miss hmiss, ih]

theorem rewriteSeq_cons (s : List α) :
    rewriteSeq (r :: rest) s = rewriteSeq rest (rewriteAll [r] s) := rfl

/-- A rule that puts its own pattern back changes nothing. -/
theorem rewriteAll_idle (hne : r.pattern ≠ []) (hsame : r.text = r.pattern) (s : List α) :
    rewriteAll [r] s = s := by
  induction s using hit_induction (forall_mem_singleton.2 hne) with
  | nil => rfl
  | found r' t hhit ih =>
    cases mem_singleton.1 (hit_mem hhit)
    rw [rewriteAll_hit hhit rfl hne, ih, hsame]
  | miss c t hhit ih => rw [rewriteAll_miss hhit, ih]

theorem rewriteSeq_effective (hne : ∀ r ∈ rules, r.pattern ≠ []) (s : List α) :
    rewriteSeq (effective rules) s = rewriteSeq rules s := by
  induction rules generalizing s with
  | nil => rfl
  | cons r rest ih =>
    obtain ⟨hr, hrest⟩ := forall_mem_cons.1 hne
    unfold effective at ih ⊢
    rw [rewriteSeq_cons, filter_cons]
    split
    · rw [rewriteSeq_cons]
      exact ih hrest _
    · rename_i hsame
      rw [rewriteAll_idle hr (by simpa using hsame)]
      exact ih hrest s

/-- The rules whose pattern stands in the text. -/
def standing (rules : List (Rule α)) (s : List α) : List (Rule α) :=
  rules.filter fun r => r.pattern <:+: s

theorem mem_standing : r ∈ standing rules s ↔ r ∈ rules ∧ r.pattern <:+: s := by
  unfold standing
  rw [mem_filter, decide_eq_true_eq]

/-- The other rules find nothing in it. -/
theorem hit_standing (h : t <:+: s) : hit (standing rules s) t = hit rules t := by
  unfold hit standing
  rw [find?_filter]
  congr 1
  funext r
  cases hpre : r.pattern.isPrefixOf t with
  | false => simp
  | true =>
    have hat : r.pattern <+: t := by simpa using hpre
    have hin : r.pattern <:+: s := hat.isInfix.trans h
    simp [hin]

theorem rewriteAll_standing (h : t <:+: s) : rewriteAll (standing rules s) t = rewriteAll rules t :=
  rewriteAll_congr fun _ hu => hit_standing (hu.trans h)

/-- A pattern does not arise by a rule whose text is clear of it. -/
theorem infix_of_infix_rewriteAll (hne : r.pattern ≠ []) (hp : p ≠ []) (hclear : Clear r.text p)
    (h : p <:+: rewriteAll [r] s) : p <:+: s := by
  induction s using hit_induction (forall_mem_singleton.2 hne) with
  | nil => exact h
  | found r' t hhit ih =>
    cases mem_singleton.1 (hit_mem hhit)
    rw [rewriteAll_hit hhit rfl hne] at h
    rcases infix_append_cases h with hin | ⟨u, hu, hsuf, hpre⟩
    · exact (ih hin).trans (suffix_append _ _).isInfix
    · exact absurd hpre (not_prefix_append (hclear.ends u hu hsuf))
  | miss c t hhit ih =>
    rw [rewriteAll_miss hhit] at h
    rcases infix_cons_iff.1 h with hpre | hin
    · obtain ⟨a, q, rfl⟩ := exists_cons_of_ne_nil hp
      rw [cons_prefix_cons] at hpre
      have hq := prefix_of_prefix_rewriteAll (u := [a]) hne hclear (by simp) rfl hpre.2
      exact (cons_prefix_cons.2 ⟨hpre.1, hq⟩).isInfix
    · exact (ih hin).trans (suffix_cons _ _).isInfix

/-- **One after the other, in one text.**  Only the patterns that stand in it
have to be solid, and only their texts clear of the other patterns. -/
theorem rewriteSeq_of_standing (hne : ∀ r ∈ rules, r.pattern ≠ [])
    (hnodup : (rules.map Rule.pattern).Nodup) (h : Solid (standing rules s))
    (hclear : ∀ r ∈ standing rules s, ∀ r' ∈ rules, r.pattern ≠ r'.pattern →
      Clear r.text r'.pattern) : rewriteSeq rules s = rewriteAll rules s := by
  induction rules generalizing s with
  | nil => rw [rewriteAll_no_rules]; rfl
  | cons r rest ih =>
    obtain ⟨hr, hrest⟩ := forall_mem_cons.1 hne
    rw [map_cons, nodup_cons] at hnodup
    rw [rewriteSeq_cons]
    by_cases hin : r.pattern <:+: s
    · have hstands : standing (r :: rest) s = r :: standing rest s :=
        filter_cons_of_pos (decide_eq_true hin)
      rw [hstands] at h hclear
      have hothers : ∀ r' ∈ rest, Clear r.text r'.pattern := fun r' hr' =>
        hclear r mem_cons_self r' (mem_cons_of_mem r hr') fun heq =>
          hnodup.1 (heq ▸ mem_map_of_mem hr')
      -- what stands in the new text stood in the old
      have hback : ∀ r' ∈ rest, r'.pattern <:+: rewriteAll [r] s → r'.pattern <:+: s :=
        fun r' hr' => infix_of_infix_rewriteAll hr (hrest r' hr') (hothers r' hr')
      have hsub : standing (standing rest s) (rewriteAll [r] s) =
          standing rest (rewriteAll [r] s) := by
        unfold standing
        rw [List.filter_filter]
        refine filter_congr fun r' hr' => ?_
        simpa using hback r' hr'
      have hsolid : Solid (standing rest s) := h.sublist (sublist_cons_self _ _)
      have hmem : ∀ r' ∈ standing rest (rewriteAll [r] s), r' ∈ standing rest s := fun r' hr' =>
        mem_of_mem_filter (hsub ▸ hr')
      rw [ih hrest hnodup.2 (hsub ▸ hsolid.sublist filter_sublist) fun r₁ hr₁ r' hr' =>
          hclear r₁ (mem_cons_of_mem r (hmem r₁ hr₁)) r' (mem_cons_of_mem r hr'),
        ← rewriteAll_standing infix_rfl, ← hsub, rewriteAll_standing infix_rfl,
        rewriteAll_cons h fun r' hr' => hothers r' (mem_standing.1 hr').1, ← hstands,
        rewriteAll_standing infix_rfl]
    · have hstands : standing (r :: rest) s = standing rest s :=
        filter_cons_of_neg (by simpa using hin)
      have hnone : standing [r] s = [] := filter_cons_of_neg (by simpa using hin)
      have hsame : rewriteAll [r] s = s := by
        rw [← rewriteAll_standing infix_rfl, hnone, rewriteAll_no_rules]
      rw [hstands] at h hclear
      rw [hsame, ih hrest hnodup.2 h fun r₁ hr₁ r' hr' => hclear r₁ hr₁ r' (mem_cons_of_mem r hr'),
        ← rewriteAll_standing infix_rfl, ← hstands, rewriteAll_standing infix_rfl]

/-- The same where some rules change nothing. -/
theorem rewriteSeq_eq_rewriteAll (hne : ∀ r ∈ rules, r.pattern ≠ [])
    (hnodup : (rules.map Rule.pattern).Nodup) (h : Solid (standing rules s))
    (hclear : ∀ r ∈ standing rules s, ∀ r' ∈ rules, r.pattern ≠ r'.pattern →
      r'.text = r'.pattern ∨ Clear r.text r'.pattern) :
    rewriteSeq rules s = rewriteAll rules s := by
  have hcomm : standing (effective rules) s = effective (standing rules s) := by
    unfold standing effective
    rw [List.filter_filter, List.filter_filter]
    exact filter_congr fun r _ => Bool.and_comm _ _
  have hsub : ∀ r ∈ effective rules, r ∈ rules := fun r hr => (mem_effective.1 hr).1
  rw [← rewriteSeq_effective hne, rewriteSeq_of_standing (fun r hr => hne r (hsub r hr))
    (hnodup.sublist (filter_sublist.map _)) (hcomm ▸ h.sublist filter_sublist),
    ← rewriteAll_standing infix_rfl, hcomm, h.rewriteAll_effective, rewriteAll_standing infix_rfl]
  intro r hr r' hr' hne'
  rw [hcomm] at hr
  obtain ⟨hr', hchange⟩ := mem_effective.1 hr'
  exact (hclear r (mem_effective.1 hr).1 r' hr' hne').resolve_left hchange

/-- Each new text is clear of the patterns of the other rules that change
something. -/
def AllClear (rules : List (Rule α)) : Prop :=
  ∀ r ∈ rules, ∀ r' ∈ rules, r.pattern ≠ r'.pattern → r'.text = r'.pattern ∨
    Clear r.text r'.pattern

theorem AllClear.rewriteSeq (hclear : AllClear rules) (h : Solid rules) (s : List α) :
    rewriteSeq rules s = rewriteAll rules s :=
  rewriteSeq_eq_rewriteAll h.ne_nil h.nodup (h.sublist filter_sublist) fun r hr =>
    hclear r (mem_standing.1 hr).1

/-! ## §4. Where a text is not clear. -/

/-- A rule that leaves a text with its pattern unchanged puts the pattern
back. -/
theorem text_eq_of_rewriteAll_eq (hne : r.pattern ≠ []) (hmem : r.pattern <:+: s)
    (hsame : rewriteAll [r] s = s) : r.text = r.pattern := by
  have hone : ∀ t, hit [r] (r.pattern ++ t) = some r := fun t => by
    unfold hit
    rw [find?_cons_of_pos (by simp)]
  -- every pattern replaced changes the length the same way
  have hlength : ∀ t : List α,
      (r.pattern.length ≤ r.text.length → t.length ≤ (rewriteAll [r] t).length) ∧
      (r.text.length ≤ r.pattern.length → (rewriteAll [r] t).length ≤ t.length) := by
    intro t
    induction t using hit_induction (forall_mem_singleton.2 hne) with
    | nil => simp
    | found r' t hhit ih =>
      cases mem_singleton.1 (hit_mem hhit)
      obtain ⟨h₁, h₂⟩ := ih
      rw [rewriteAll_hit hhit rfl hne, length_append, length_append]
      exact ⟨fun h => by have := h₁ h; omega, fun h => by have := h₂ h; omega⟩
    | miss c t hhit ih =>
      obtain ⟨h₁, h₂⟩ := ih
      rw [rewriteAll_miss hhit, length_cons, length_cons]
      exact ⟨fun h => by have := h₁ h; omega, fun h => by have := h₂ h; omega⟩
  induction s with
  | nil => exact absurd (infix_nil.1 hmem) hne
  | cons c s ih =>
    cases hhit : hit [r] (c :: s) with
    | some r' =>
      cases mem_singleton.1 (hit_mem hhit)
      obtain ⟨t, ht⟩ := hit_pattern hhit
      rw [← ht, rewriteAll_hit (hone t) rfl hne] at hsame
      obtain ⟨h₁, h₂⟩ := hlength t
      have hlen := congrArg List.length hsame
      rw [length_append, length_append] at hlen
      refine (append_inj hsame ?_).1
      rcases Nat.le_total r.pattern.length r.text.length with hle | hle
      · have := h₁ hle
        omega
      · have := h₂ hle
        omega
    | none =>
      rw [rewriteAll_miss hhit] at hsame
      refine ih ?_ (List.cons.inj hsame).2
      rcases infix_cons_iff.1 hmem with hpre | hinf
      · exact absurd hpre (hit_eq_none.1 hhit r (mem_singleton_self r))
      · exact hinf

/-- `x` is cut off before the end of `p`, and `y` behind its beginning. -/
structure Around (x y p : List α) : Prop where
  left : ∃ z, z ≠ [] ∧ x ++ z = p
  right : ∃ z, z ≠ [] ∧ z ++ y = p

omit [DecidableEq α] in
/-- A text that is not clear of `p` can be completed to one that has `p`, by a
part of `p` on each side. -/
theorem exists_around_of_not_clear (hlen : 2 ≤ p.length) (h : ¬ Clear v p) :
    ∃ x y, Around x y p ∧ p <:+: x ++ v ++ y := by
  by_contra hno
  push Not at hno
  have hne : p ≠ [] := by
    rintro rfl
    simp at hlen
  refine h ⟨fun u hu hsuf => ⟨fun hpre => ?_, fun hpre => ?_⟩, fun u hu hpre hsuf => ?_,
    fun hinf => ?_⟩
  · obtain ⟨y, hy⟩ := hpre
    obtain ⟨v₀, rfl⟩ := hsuf
    exact hno [] y ⟨⟨p, hne, rfl⟩, u, hu, hy⟩ ⟨v₀, [], by simp [hy]⟩
  · exact hno [] [] ⟨⟨p, hne, rfl⟩, p, hne, append_nil p⟩
      (by simpa using hpre.isInfix.trans hsuf.isInfix)
  · obtain ⟨x, hx⟩ := hsuf
    obtain ⟨v₁, rfl⟩ := hpre
    exact hno x [] ⟨⟨u, hu, hx⟩, p, hne, append_nil p⟩ ⟨[], v₁, by simp [← hx]⟩
  · obtain ⟨x, y, hxy⟩ := hinf
    by_cases hv : v = []
    · -- nothing between two parts of `p`
      subst hv
      obtain ⟨c, p, rfl⟩ := exists_cons_of_ne_nil hne
      have hp : p ≠ [] := by
        rintro rfl
        simp at hlen
      exact hno [c] p ⟨⟨p, hp, rfl⟩, [c], by simp, rfl⟩ (by simp)
    · refine hno x y ⟨⟨v ++ y, by simp [hv], by simpa using hxy⟩, x ++ v, by simp [hv], hxy⟩ ?_
      rw [hxy]

section Around

variable {r' : Rule α} {x y : List α}

/-- In `x ++ r.pattern ++ y`, with parts of another pattern around it, only
`r` finds something. -/
theorem Solid.rewriteAll_around (h : Solid rules) (hsub : rest ⊆ rules) (hr : r ∈ rules)
    (hr' : r' ∈ rules) (ha : Around x y r'.pattern) :
    rewriteAll rest (x ++ (r.pattern ++ y)) = x ++ rewriteAll rest (r.pattern ++ y) ∧
      rewriteAll rest y = y := by
  obtain ⟨⟨z, hz, hx⟩, z', hz', hy⟩ := ha
  constructor
  · refine rewriteAll_append fun r₁ hr₁ u hu hsuf hpre => ?_
    replace hr₁ := hsub hr₁
    -- not inside the part before, and not across its end
    have hin : ¬ r₁.pattern <+: u := by
      intro hle
      have hlong : r₁.pattern <+: u ++ z := hle.trans (prefix_append u z)
      have hsuf' : u ++ z <:+ r'.pattern := by
        obtain ⟨x₀, hx₀⟩ := hsuf
        exact ⟨x₀, by rw [← append_assoc, hx₀, hx]⟩
      by_cases hwhole : u ++ z = r'.pattern
      · have hsame := h.begins r₁ hr₁ r' hr' (hwhole ▸ hlong)
        have hlen := hle.length_le
        have hpos := length_pos_of_ne_nil hz
        rw [hsame, ← hwhole, length_append] at hlen
        omega
      · exact (h.outside r₁ hr₁ r' hr' _ (by simp [hu]) hsuf' hwhole).2 hlong
    rcases prefix_append_cases hpre with hle | ⟨w, hw⟩
    · exact hin hle
    · have hwne : w ≠ [] := by
        rintro rfl
        exact hin (by rw [← hw, append_nil])
      have hrest : w <+: r.pattern ++ y := by
        rw [← hw] at hpre
        exact (prefix_append_right_inj u).1 hpre
      obtain ⟨hleft, hright⟩ := h.outside r hr r₁ hr₁ w hwne ⟨u, hw⟩ (by
        rintro rfl
        exact hu (by simpa using hw))
      exact not_prefix_append ⟨hright, hleft⟩ hrest
  · have hpass : rewriteAll rest (y ++ []) = y ++ rewriteAll rest [] := by
      refine rewriteAll_append fun r₁ hr₁ u hu hsuf => ?_
      rw [append_nil]
      refine (h.outside r₁ (hsub hr₁) r' hr' u hu (hsuf.trans ⟨z', hy⟩) ?_).2
      rintro rfl
      have hlen := hsuf.length_le
      have hpos := length_pos_of_ne_nil hz'
      rw [← hy, length_append] at hlen
      omega
    simpa using hpass

/-- The other rules leave it as it is. -/
theorem Solid.rewriteSeq_around (h : Solid rules) (hr : r ∈ rules) (hr' : r' ∈ rules)
    (ha : Around x y r'.pattern) {os : List (Rule α)} (hos : ∀ r₁ ∈ os, r₁ ∈ rules ∧ r₁ ≠ r) :
    rewriteSeq os (x ++ (r.pattern ++ y)) = x ++ (r.pattern ++ y) := by
  induction os with
  | nil => rfl
  | cons r₁ os ih =>
    obtain ⟨⟨hr₁, hne⟩, hos⟩ := forall_mem_cons.1 hos
    have hsub : [r₁] ⊆ rules := fun r₂ hr₂ => mem_singleton.1 hr₂ ▸ hr₁
    obtain ⟨hleft, hright⟩ := h.rewriteAll_around hsub hr hr' ha
    rw [rewriteSeq_cons, hleft, h.rewriteAll_foreign hsub hr (by simpa using hne.symm), hright]
    exact ih hos

end Around

/-- The rules with two of them at the end. -/
theorem exists_two_last (hnodup : rules.Nodup) {r' : Rule α} (hr : r ∈ rules) (hr' : r' ∈ rules)
    (hne : r ≠ r') :
    ∃ os, (os ++ [r, r']).Perm rules ∧ ∀ r₁ ∈ os, r₁ ∈ rules ∧ r₁ ≠ r := by
  refine ⟨(rules.erase r).erase r', ?_, fun r₁ hr₁ => ?_⟩
  · have hmem : r' ∈ rules.erase r := (hnodup.mem_erase_iff).2 ⟨hne.symm, hr'⟩
    refine perm_append_comm.trans ?_
    exact ((perm_cons_erase hmem).symm.cons r).trans (perm_cons_erase hr).symm
  · have hr₁' : r₁ ∈ rules.erase r := mem_of_mem_erase hr₁
    exact ⟨mem_of_mem_erase hr₁', ((hnodup.mem_erase_iff).1 hr₁').1⟩

/-- **At once and one after the other.**  For every text and every order of
the rules the two agree, exactly if each new text is clear of the patterns of
the other rules. -/
theorem Solid.rewriteSeq_eq_iff (h : Solid rules) (hlen : ∀ r ∈ rules, 2 ≤ r.pattern.length) :
    (∀ order : List (Rule α), order.Perm rules → ∀ s, rewriteSeq order s = rewriteAll rules s) ↔
      AllClear rules := by
  constructor
  · intro hall r hr r' hr' hne
    by_contra hnot
    rw [not_or] at hnot
    obtain ⟨hchange, hnot⟩ := hnot
    obtain ⟨x, y, ha, hmem⟩ := exists_around_of_not_clear (hlen r' hr') hnot
    -- all the other rules first, then `r`, then `r'`
    obtain ⟨others, hperm, hothers⟩ := exists_two_last (h.nodup.of_map Rule.pattern) hr hr'
      fun heq => hne (congrArg Rule.pattern heq)
    have hput : ∀ {sub : List (Rule α)}, Solid sub → sub ⊆ rules → r ∈ sub →
        rewriteAll sub (x ++ (r.pattern ++ y)) = x ++ (r.text ++ y) := by
      intro sub hsolid hsub hmem
      obtain ⟨hleft, hright⟩ := h.rewriteAll_around hsub hr hr' ha
      rw [hleft, hsolid.rewriteAll_pattern hmem, hright]
    have hone : rewriteAll [r] (x ++ (r.pattern ++ y)) = x ++ (r.text ++ y) :=
      hput (h.sublist (singleton_sublist.2 hr)) (fun r₂ hr₂ => mem_singleton.1 hr₂ ▸ hr)
        (mem_singleton_self r)
    have hseq := hall _ hperm (x ++ (r.pattern ++ y))
    rw [hput h (List.Subset.refl _) hr] at hseq
    unfold rewriteSeq at hseq
    rw [foldl_append] at hseq
    replace hseq : rewriteAll [r'] (rewriteAll [r] (rewriteSeq others (x ++ (r.pattern ++ y)))) =
        x ++ (r.text ++ y) := hseq
    rw [h.rewriteSeq_around hr hr' ha hothers, hone] at hseq
    refine hchange (text_eq_of_rewriteAll_eq (h.ne_nil r' hr') ?_ hseq)
    rw [← append_assoc]
    exact hmem
  · intro hclear order hperm s
    have horder : AllClear order := fun r hr r' hr' =>
      hclear r (hperm.mem_iff.1 hr) r' (hperm.mem_iff.1 hr')
    rw [horder.rewriteSeq (h.of_perm hperm), h.rewriteAll_perm hperm]

/-! ## §5. Every pattern of a text. -/

/-- `out` is `s` with every pattern that stands in it replaced, and nothing
else changed.  If two of them overlap there is no such text. -/
inductive Replaced (rules : List (Rule α)) : List α → List α → Prop
  | nil : Replaced rules [] []
  | keep {c : α} {s out : List α} (hnone : ∀ r ∈ rules, ¬ r.pattern <+: c :: s)
      (hs : Replaced rules s out) : Replaced rules (c :: s) (c :: out)
  /-- no other pattern begins where this one stands -/
  | put {r : Rule α} {s out : List α} (hr : r ∈ rules)
      (halone : ∀ r' ∈ rules, ∀ u, u ≠ [] → u <:+ r.pattern → r'.pattern <+: u ++ s →
        u = r.pattern ∧ r' = r)
      (hs : Replaced rules s out) : Replaced rules (r.pattern ++ s) (r.text ++ out)

variable {r' : Rule α} {out : List α}

omit [DecidableEq α] in
/-- Where a pattern stands in such a text, no other begins. -/
theorem Replaced.alone (hne : ∀ r ∈ rules, r.pattern ≠ []) (h : Replaced rules (r.pattern ++ t) out)
    (hr : r ∈ rules) (hr' : r' ∈ rules) (hu : u ≠ []) (hsuf : u <:+ r.pattern)
    (hpre : r'.pattern <+: u ++ t) : u = r.pattern ∧ r' = r := by
  generalize hs : r.pattern ++ t = s at h
  cases h with
  | nil => exact absurd (append_eq_nil_iff.1 hs).1 (hne r hr)
  | keep hnone _ => exact absurd ⟨t, hs⟩ (hnone r hr)
  | put hr₁ halone _ =>
    -- `r` begins where the first pattern stands, so it is that one
    obtain ⟨-, rfl⟩ := halone r hr _ (hne _ hr₁) suffix_rfl ⟨t, hs⟩
    cases append_cancel_left hs
    exact halone r' hr' u hu hsuf hpre

omit [DecidableEq α] in
/-- Patterns that can be replaced in every text are solid. -/
theorem solid_of_replaced (hne : ∀ r ∈ rules, r.pattern ≠ [])
    (hnodup : (rules.map Rule.pattern).Nodup) (h : ∀ s, ∃ out, Replaced rules s out) :
    Solid rules where
  ne_nil := hne
  nodup := hnodup
  begins r hr r' hr' hpre := by
    obtain ⟨out, hout⟩ := h (r'.pattern ++ [])
    rw [(hout.alone hne hr' hr (hne r' hr') suffix_rfl (by rwa [append_nil])).2]
  outside r hr r' hr' u hu hsuf hproper := by
    constructor
    · rintro ⟨w, hw⟩
      obtain ⟨out, hout⟩ := h (r'.pattern ++ w)
      exact hproper (hout.alone hne hr' hr hu hsuf (hw ▸ prefix_rfl)).1
    · intro hpre
      obtain ⟨out, hout⟩ := h (r'.pattern ++ [])
      exact hproper (hout.alone hne hr' hr hu hsuf (by rwa [append_nil])).1

/-- Of solid patterns, reading from the left replaces every one. -/
theorem Solid.replaced_iff (h : Solid rules) : Replaced rules s out ↔ out = rewriteAll rules s := by
  constructor
  · intro hout
    induction hout with
    | nil => rfl
    | keep hnone _ ih => rw [rewriteAll_miss (hit_eq_none.2 hnone), ih]
    | put hr _ _ ih => rw [h.rewriteAll_pattern hr, ih]
  · rintro rfl
    induction s using hit_induction h.ne_nil with
    | nil => exact .nil
    | found r t hhit ih =>
      have hr := hit_mem hhit
      rw [h.rewriteAll_pattern hr]
      refine .put hr (fun r' hr' u hu hsuf hpre => ?_) ih
      have hwhole : u = r.pattern := not_not.1 fun hne => h.not_within hr' hr hu hsuf hne hpre
      exact ⟨hwhole, h.eq_of_prefix hr hr' (hwhole ▸ hpre)⟩
    | miss c t hhit ih =>
      rw [rewriteAll_miss hhit]
      exact .keep (hit_eq_none.1 hhit) ih

/-- **One rule after the other replaces every pattern** of every text, in
every order, exactly if the patterns are solid and each new text is clear of
the others. -/
theorem replaced_rewriteSeq_iff (hlen : ∀ r ∈ rules, 2 ≤ r.pattern.length)
    (hnodup : (rules.map Rule.pattern).Nodup) :
    (∀ order : List (Rule α), order.Perm rules → ∀ s, Replaced rules s (rewriteSeq order s)) ↔
      Solid rules ∧ AllClear rules := by
  constructor
  · intro hall
    have hsolid : Solid rules := by
      refine solid_of_replaced (fun r hr hnil => ?_) hnodup
        fun s => ⟨_, hall rules (Perm.refl rules) s⟩
      have := hlen r hr
      simp [hnil] at this
    refine ⟨hsolid, (hsolid.rewriteSeq_eq_iff hlen).1 fun order hperm s => ?_⟩
    exact hsolid.replaced_iff.1 (hall order hperm s)
  · rintro ⟨hsolid, hclear⟩ order hperm s
    exact hsolid.replaced_iff.2 ((hsolid.rewriteSeq_eq_iff hlen).2 hclear order hperm s)

/-! ## §6. Up to a place outside the patterns. -/

/-- Read on to `c`, `skip` places of a pattern still to be passed over. -/
def beforeFrom (rules : List (Rule α)) (c : α) : Nat → List α → List α
  | _, [] => []
  | skip + 1, a :: s => a :: beforeFrom rules c skip s
  | 0, a :: s =>
    match hit rules (a :: s) with
    | some r => a :: beforeFrom rules c (r.pattern.length - 1) s
    | none => if a = c then [] else a :: beforeFrom rules c 0 s

/-- The text up to the first `c` that stands in no pattern. -/
def before (rules : List (Rule α)) (c : α) (s : List α) : List α := beforeFrom rules c 0 s

omit [DecidableEq α] in
/-- A pattern that begins in `s` ends in it, if its last place is not in what
follows. -/
theorem prefix_of_last {d : α} (hlast : p.getLast? = some d) (hd : d ∉ t) (h : p <+: s ++ t) :
    p <+: s := by
  rcases prefix_append_cases h with hle | ⟨w, hw⟩
  · exact hle
  · rw [← hw, prefix_append_right_inj] at h
    cases w with
    | nil => exact ⟨[], by rw [append_nil] at hw ⊢; exact hw.symm⟩
    | cons b w =>
      rw [← hw, getLast?_append_of_ne_nil _ (cons_ne_nil b w)] at hlast
      exact absurd (h.subset (mem_of_getLast? hlast)) hd

theorem standing_append {d : α} (hlast : ∀ r ∈ rules, r.pattern.getLast? = some d) (hd : d ∉ t)
    (s : List α) : standing rules (s ++ t) = standing rules s := by
  refine filter_congr fun r hr => ?_
  rw [decide_eq_decide]
  refine ⟨fun h => ?_, fun h => h.trans (prefix_append s t).isInfix⟩
  rcases infix_append_cases h with hin | ⟨u, -, hsuf, hpre⟩
  · exact absurd (hin.subset (mem_of_getLast? (hlast r hr))) hd
  · exact (prefix_of_last (hlast r hr) hd hpre).isInfix.trans hsuf.isInfix

end Talus.Base
