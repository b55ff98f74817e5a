import LoopCalc.Proofs.Execution.StaticLoops

/-! How often a loop over fixed integers passes through its body, in terms of the integers
themselves: the number of passes is a floored quotient, and pass number `k` starts `k` steps from
the start.
-/

namespace LoopCalc

namespace Range

/-- The number of passes, as a count of integers. -/
theorem natCast_trips {r : Range} (hne : r.step ≠ 0)
    : (r.trips : Int)
      = if 0 < r.step ∧ r.start ≤ r.stop ∨ r.step < 0 ∧ r.stop ≤ r.start then
          (r.stop - r.start).fdiv r.step + 1
        else 0 := by
  have hpast : r.isPast = true
      ↔ ¬(0 < r.step ∧ r.start ≤ r.stop ∨ r.step < 0 ∧ r.stop ≤ r.start) := by
    rw [isPast]
    split <;> rw [decide_eq_true_eq] <;> omega
  split
  · next hrange =>
    have hnonneg := mt (isPast_iff hne).2 (fun h => hpast.1 h hrange)
    rw [trips_eq hne]
    omega
  · next hrange =>
    rw [(trips_eq_zero_iff hne).2 (hpast.2 hrange)]
    rfl

end Range

namespace Header

variable {h : Header}

/-- A loop from `a` to `b` by `s` makes exactly the passes of these integers, if the loops of its
body count in other variables, the watchdog that it arms is silent, and the body completes whenever
it is entered. -/
theorem run_counts {a b s : Int} (hstart : h.start.toInt? = some a)
    (hstop : h.stop.toInt? = some b) (hstep : h.step.toInt? = some s) (ha : a.natAbs ≤ 2 ^ 52)
    (hb : b.natAbs ≤ 2 ^ 52) (hs : s.natAbs ≤ 2 ^ 52) (hne : s ≠ 0) {body : List Statement}
    (hi : h.iterator ∉ Program.iterators body) {limits : Limits} {m : Machine}
    (hsilent : ∀ reading, m.readings < reading
      → ¬limits.pace.clock.Expired limits.timeout m.readings reading)
    (hpasses : 2 ^ 53 < limits.pace.passes)
    (hbody : ∀ starts start, h.Reenters limits (Program.exec limits body) m starts start
      → ∃ after, Program.exec limits body start = .ok () after)
    : ∃ starts next,
        h.run limits (Program.exec limits body) m = .ok () next
        ∧ h.Makes limits (Program.exec limits body) m starts next
        ∧ (starts.length : Int)
          = (if 0 < s ∧ a ≤ b ∨ s < 0 ∧ b ≤ a then (b - a).fdiv s + 1 else 0)
        ∧ (∀ (k : Nat) (start : Machine), starts[k]? = some start
            → (start.store.get h.iterator).toInt? = some (a + k * s))
        ∧ (next.store.get h.iterator).toInt? = some (a + starts.length * s) := by
  let r : Range := ⟨a, b, s⟩
  have he : r.Exact := ⟨hb, hs, hne, fun _ => (by omega : -2 ^ 52 ≤ a),
    fun _ => (by omega : a ≤ 2 ^ 52)⟩
  obtain ⟨starts, next, hrun, hmakes, hc, htrips⟩ :=
    @exists_makes h r _ limits _ m (Program.stepwise_exec limits body) hi hstart hstop hstep he
      hsilent (he.trips_le.trans hpasses) hbody
  refine ⟨starts, next, hrun, hmakes, ?_, hc.values, hc.remains.current⟩
  rw [htrips]
  exact Range.natCast_trips hne

/-- Down from five to zero by two. -/
def odds : Header :=
  ⟨.theta, .literal (.ofInt 5), .literal (.ofInt 0), .literal (.ofInt (-2)), ⟨1, 1⟩⟩

/-- A loop in another variable, which displays both. -/
def oddsBody : List Statement :=
  [.loop ⟨.ans, .literal (.ofInt 1), .literal (.ofInt 3), .literal (.ofInt 1), ⟨2, 1⟩⟩
    [.disp (.reference .theta) ⟨3, 1⟩, .disp (.reference .ans) ⟨4, 1⟩]]

/-- The three passes of this loop start at five, three and one, and it ends at minus one. -/
theorem run_counts_odds
    : odds.start.toInt? = some 5
      ∧ odds.stop.toInt? = some 0
      ∧ odds.step.toInt? = some (-2)
      ∧ odds.iterator ∉ Program.iterators oddsBody
      ∧ 2 ^ 53 < Pace.steady.passes
      ∧ ∃ starts next,
          odds.run ⟨.steady, .never⟩ (Program.exec ⟨.steady, .never⟩ oddsBody) (.start .blank none)
            = .ok () next
          ∧ odds.Makes ⟨.steady, .never⟩ (Program.exec ⟨.steady, .never⟩ oddsBody)
            (.start .blank none) starts next
          ∧ (starts.length : Int) = 3
          ∧ (∀ (k : Nat) (start : Machine), starts[k]? = some start
              → (start.store.get .theta).toInt? = some (5 + (k : Int) * -2))
          ∧ (next.store.get .theta).toInt? = some (5 + (starts.length : Int) * -2) := by
  have hstart : odds.start.toInt? = some 5 := by decide +kernel
  have hstop : odds.stop.toInt? = some 0 := by decide +kernel
  have hstep : odds.step.toInt? = some (-2) := by decide +kernel
  have hi : odds.iterator ∉ Program.iterators oddsBody := by decide
  have hpasses : 2 ^ 53 < Pace.steady.passes := by decide
  have hstatic : Program.isStatic oddsBody = true := by decide +kernel
  refine ⟨hstart, hstop, hstep, hi, hpasses, ?_⟩
  refine run_counts hstart hstop hstep (by decide) (by decide) (by decide) (by decide) hi ?_
    hpasses ?_
  · rintro reading - ⟨deadline, hnone, -⟩
    cases hnone
  · intro starts start _
    obtain ⟨after, hafter, -⟩ :=
      @Program.prints_exec ⟨.steady, .never⟩ rfl hpasses oddsBody hstatic start
    exact ⟨after, hafter⟩

end Header

end LoopCalc
