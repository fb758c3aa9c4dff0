/-
  Talus.Relay.Substitute
  **PUTTING CREDENTIALS IN PLACE OF THEIR PLACEHOLDERS.**

  `substitute` runs over the text once for each credential, in whatever order
  the map is visited.  What is meant is `Simultaneous`: each `{{key}}` of the
  input becomes the value of that key, and nothing else changes.

    • `wellDelimited_of_braceFree`: keys without braces have placeholders that
      are disjoint pieces of any text,
    • `substitute_simultaneous_iff`: every order gives what is meant on every
      text, exactly if the placeholders are disjoint pieces of any text and no
      value can make up a placeholder of another key.
-/
import Talus.Relay.Target

namespace Talus.Relay

open Talus.Base List Option Function

/-- The rules of a credential map. -/
def rulesOf (creds : StringMap) : List (Rule UInt8) := creds.pairs.map credentialRule

/-- `out` is the input with each `{{key}}` in it replaced by the value of that
key, and nothing else changed. -/
def Simultaneous (creds : StringMap) (input out : Bytes) : Prop := Replaced (rulesOf creds) input out

/-- The placeholders in a text are disjoint pieces of it: none begins another,
or inside another. -/
def WellDelimited (creds : StringMap) : Prop := Solid (rulesOf creds)

/-- No value can make up a placeholder of another key: it does not contain
one, end as one begins, begin as one ends or lie within one. -/
def NoneMadeUp (creds : StringMap) : Prop :=
  ∀ p ∈ creds.pairs, ∀ q ∈ creds.pairs, p.1 ≠ q.1 → q.2 = placeholder q.1 ∨
    Clear p.2 (placeholder q.1)

theorem placeholder_injective : Function.Injective placeholder := by
  intro k k' h
  unfold placeholder at h
  simpa using h

theorem credentialRule_injective : Function.Injective credentialRule := by
  rintro ⟨k, v⟩ ⟨k', v'⟩ h
  obtain ⟨hk, hv⟩ := Rule.mk.inj h
  exact Prod.ext (placeholder_injective hk) hv

theorem patterns_nodup (creds : StringMap) : ((rulesOf creds).map Rule.pattern).Nodup := by
  have hkeys : (rulesOf creds).map Rule.pattern = (creds.pairs.map Prod.fst).map placeholder := by
    unfold rulesOf
    rw [List.map_map, List.map_map]
    rfl
  rw [hkeys]
  exact creds.keysNodup.map placeholder_injective

/-! ## §1. Keys without braces. -/

/-- What stands before the first closing brace is the key. -/
theorem key_of_start {k k' t : Bytes} (hk : closeBrace ∉ k) (hk' : closeBrace ∉ k')
    (h : k ++ [closeBrace, closeBrace] <+: k' ++ closeBrace :: t) : k = k' := by
  have hcut : ∀ {x : Bytes}, closeBrace ∉ x → ∀ y,
      (x ++ closeBrace :: y).takeWhile (· != closeBrace) = x :=
    fun hx _ => congrArg Prod.fst (cut_append hx)
  obtain ⟨rest, hrest⟩ := h
  rw [append_assoc] at hrest
  calc k = (k ++ closeBrace :: closeBrace :: rest).takeWhile (· != closeBrace) := (hcut hk _).symm
    _ = (k' ++ closeBrace :: t).takeWhile (· != closeBrace) := by rw [← hrest]; rfl
    _ = k' := hcut hk' _

/-- A text that does not begin with two opening braces begins no
placeholder, and no placeholder begins it. -/
theorem not_prefix_of_braces {k u : Bytes} (hlen : u ≠ [])
    (hu : u.head? ≠ some openBrace ∨ (2 ≤ u.length ∧ u[1]? ≠ some openBrace)) :
    ¬ u <+: placeholder k ∧ ¬ placeholder k <+: u := by
  unfold placeholder
  rcases u with _ | ⟨a, _ | ⟨b, u⟩⟩
  · exact absurd rfl hlen
  · have ha : a ≠ openBrace := by simpa using hu
    simp [ha, ha.symm]
  · have hab : a ≠ openBrace ∨ b ≠ openBrace := by simpa using hu
    simp only [cons_prefix_cons]
    constructor <;> rintro ⟨rfl, rfl, -⟩ <;> simp at hab

theorem outside_of_braceFree {k k' : Bytes} (hk' : openBrace ∉ k') :
    Outside (placeholder k) (placeholder k') := by
  intro u hu hsuf hne
  refine not_prefix_of_braces hu ?_
  unfold placeholder at hsuf hne
  rcases suffix_cons_iff.1 hsuf with hwhole | hsuf
  · exact absurd hwhole hne
  · have hbrace : ∀ b ∈ k' ++ [closeBrace, closeBrace], b ≠ openBrace := by
      intro b hb
      rcases mem_append.1 hb with hb | hb
      · rintro rfl
        exact hk' hb
      · have : b = closeBrace := by simpa using hb
        rw [this]
        decide
    rcases suffix_cons_iff.1 hsuf with rfl | hsuf
    · -- behind the first brace: only one is left
      refine .inr ⟨by simp, fun hsecond => ?_⟩
      rw [getElem?_cons_succ] at hsecond
      exact hbrace _ (mem_of_getElem? hsecond) rfl
    · obtain ⟨b, u, rfl⟩ := exists_cons_of_ne_nil hu
      refine .inl fun hb => ?_
      exact hbrace b (hsuf.subset mem_cons_self) (some.inj hb)

/-- **Keys without braces** are well delimited. -/
theorem wellDelimited_of_braceFree {creds : StringMap}
    (h : ∀ p ∈ creds.pairs, openBrace ∉ p.1 ∧ closeBrace ∉ p.1) : WellDelimited creds := by
  have hrule : ∀ r ∈ rulesOf creds,
      ∃ k, r.pattern = placeholder k ∧ openBrace ∉ k ∧ closeBrace ∉ k := by
    intro r hr
    obtain ⟨p, hp, rfl⟩ := mem_map.1 hr
    exact ⟨p.1, rfl, h p hp⟩
  refine ⟨fun r hr => ?_, patterns_nodup creds, fun r hr r' hr' hpre => ?_, fun r hr r' hr' => ?_⟩
  · obtain ⟨k, hk, -⟩ := hrule r hr
    rw [hk]
    exact cons_ne_nil _ _
  · obtain ⟨k, hk, -, hclose⟩ := hrule r hr
    obtain ⟨k', hk', -, hclose'⟩ := hrule r' hr'
    rw [hk, hk'] at hpre ⊢
    unfold placeholder at hpre
    rw [cons_prefix_cons, cons_prefix_cons] at hpre
    rw [key_of_start hclose hclose' hpre.2.2]
  · obtain ⟨k, hk, -⟩ := hrule r hr
    obtain ⟨k', hk', hopen', -⟩ := hrule r' hr'
    rw [hk, hk']
    exact outside_of_braceFree hopen'

/-! ## §2. Every order and every text. -/

theorem noneMadeUp_iff {creds : StringMap} : NoneMadeUp creds ↔ AllClear (rulesOf creds) := by
  constructor
  · intro h r hr r' hr' hne
    obtain ⟨p, hp, rfl⟩ := mem_map.1 hr
    obtain ⟨q, hq, rfl⟩ := mem_map.1 hr'
    exact h p hp q hq fun heq => hne (congrArg placeholder heq)
  · intro h p hp q hq hne
    exact h _ (mem_map_of_mem hp) _ (mem_map_of_mem hq) fun heq => hne (placeholder_injective heq)

/-- An order of the rules is an order of the credentials. -/
theorem exists_order {pairs : List (Bytes × Bytes)} {rules : List (Rule UInt8)}
    (h : rules.Perm (pairs.map credentialRule)) :
    ∃ order : List (Bytes × Bytes), order.Perm pairs ∧ order.map credentialRule = rules := by
  let back := Function.invFun credentialRule
  have hback : ∀ p, back (credentialRule p) = p :=
    leftInverse_invFun credentialRule_injective
  refine ⟨rules.map back, ?_, ?_⟩
  · have hperm := h.map back
    rw [List.map_map] at hperm
    simpa [comp_def, hback] using hperm
  · rw [List.map_map]
    refine (map_congr_left fun r hr => ?_).trans (map_id rules)
    obtain ⟨p, -, rfl⟩ := mem_map.1 (h.mem_iff.1 hr)
    show credentialRule (back (credentialRule p)) = _
    rw [hback]
    rfl

/-- **Credential substitution is simultaneous** — for every text and every
order in which the map is visited — exactly if the placeholders are disjoint
pieces of any text and no value can make up a placeholder of another key. -/
theorem substitute_simultaneous_iff (creds : StringMap) :
    (∀ order : List (Bytes × Bytes), order.Perm creds.pairs → ∀ input,
      Simultaneous creds input (substitute order input)) ↔
        WellDelimited creds ∧ NoneMadeUp creds := by
  have hlen : ∀ r ∈ rulesOf creds, 2 ≤ r.pattern.length := by
    intro r hr
    obtain ⟨p, -, rfl⟩ := mem_map.1 hr
    show 2 ≤ (placeholder p.1).length
    unfold placeholder
    simp
  rw [noneMadeUp_iff]
  refine Iff.trans ?_ (replaced_rewriteSeq_iff hlen (patterns_nodup creds))
  constructor
  · intro hall rules hperm s
    obtain ⟨order, horder, rfl⟩ := exists_order hperm
    exact hall order horder s
  · intro hall order hperm s
    exact hall _ (hperm.map credentialRule) s

/-- The value of `token` is itself the placeholder of `secret`. -/
def nestedCredentials : StringMap where
  pairs := [(ascii "token", placeholder (ascii "secret")), (ascii "secret", ascii "s3cr")]
  keysNodup := by decide +kernel

/-- One order inserts the secret the text never asked for, the other does
not. -/
theorem value_substituted_again :
    substitute nestedCredentials.pairs (placeholder (ascii "token")) = ascii "s3cr" ∧
    substitute nestedCredentials.pairs.reverse (placeholder (ascii "token")) =
      placeholder (ascii "secret") ∧
    ¬ ∀ order : List (Bytes × Bytes), order.Perm nestedCredentials.pairs → ∀ input,
      Simultaneous nestedCredentials input (substitute order input) := by
  refine ⟨by decide +kernel, by decide +kernel, fun h => ?_⟩
  have hsolid : Solid (rulesOf nestedCredentials) := wellDelimited_of_braceFree (by decide +kernel)
  have hmeant := hsolid.replaced_iff.1 (h _ (List.Perm.refl _) (placeholder (ascii "token")))
  exact absurd hmeant (by decide +kernel)

end Talus.Relay
