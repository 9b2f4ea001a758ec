import HistoryTree.Random.Sampler
import HistoryTree.Proofs.Success

/-!
# What draws yield

A draw yields a property if it succeeds from every state of the sampler, with a result
that has the property whatever the sampler answered. Sequences of draws are judged
part by part.
-/

namespace HistoryTree.Random

variable {σ α β : Type}

/-- The draw succeeds from every state, with a result that has the property. -/
def Draw.Yields (draw : Draw σ α) (property : α → Prop) : Prop :=
  ∀ state, ∃ result next, draw.run state = .ok (result, next) ∧ property result

namespace Draw

variable {draw : Draw σ α} {property : α → Prop}

theorem yields_pure {result : α} (h : property result) :
    Yields (pure result : Draw σ α) property :=
  fun state => ⟨result, state, rfl, h⟩

/-- A question has an answer; what is known of it is in its type. -/
theorem yields_ask (answer : σ → α × σ) : Yields (ask answer) fun _ => True :=
  fun state => ⟨(answer state).1, (answer state).2, rfl, trivial⟩

theorem Yields.bind {after : α → Draw σ β} {target : β → Prop} (h : Yields draw property)
    (hafter : ∀ result, property result → Yields (after result) target) :
    Yields (draw >>= after) target := by
  intro state
  obtain ⟨result, next, hrun, hresult⟩ := h state
  obtain ⟨final, last, hrest, hfinal⟩ := hafter result hresult next
  refine ⟨final, last, ?_, hfinal⟩
  rw [StateT.run_bind, hrun, ok_bind, hrest]

theorem Yields.mono {weaker : α → Prop} (h : Yields draw property)
    (hweaker : ∀ result, property result → weaker result) : Yields draw weaker := by
  intro state
  obtain ⟨result, next, hrun, hresult⟩ := h state
  exact ⟨result, next, hrun, hweaker result hresult⟩

/-- Each of several results has the property of one. -/
theorem Yields.times (h : Yields draw property) (count : Nat) :
    Yields (draw.times count) fun results =>
      results.length = count ∧ ∀ result ∈ results, property result := by
  induction count with
  | zero => exact yields_pure ⟨rfl, List.forall_mem_nil _⟩
  | succ count ih =>
    apply h.bind
    intro first hfirst
    apply ih.bind
    intro rest hrest
    apply yields_pure
    rw [List.length_cons, hrest.1, List.forall_mem_cons]
    exact ⟨rfl, hfirst, hrest.2⟩

end Draw

namespace Sampler

variable (sampler : Sampler σ)

/-- Some entry is given if there is any. -/
theorem yields_member {entries : Array α} (h : 0 < entries.size) :
    Draw.Yields (sampler.member entries) fun _ => True := by
  rw [member, dif_pos h]
  exact (Draw.yields_ask _).bind fun _ _ => Draw.yields_pure trivial

/-- Some word is given if the range has any. -/
theorem yields_wordBetween {low high : UInt32} (h : low ≤ high) :
    Draw.Yields (sampler.wordBetween low high) fun _ => True := by
  rw [wordBetween, dif_pos h]
  exact Draw.yields_ask _

end Sampler

end HistoryTree.Random
