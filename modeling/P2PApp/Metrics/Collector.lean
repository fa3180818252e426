import Mathlib.Data.Nat.Notation
import Mathlib.Logic.Function.Basic

/-!
# Metric counters

The counters of the metrics collector, as a total function that is zero on every name not yet
incremented.
-/

namespace P2PApp

structure MetricsCollector where
  counters : String → ℕ

namespace MetricsCollector

def new : MetricsCollector := ⟨fun _ ↦ 0⟩

def increment (collector : MetricsCollector) (name : String) : MetricsCollector :=
  ⟨Function.update collector.counters name (collector.counters name + 1)⟩

end MetricsCollector

end P2PApp
