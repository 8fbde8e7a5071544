import Rumble.Proofs.BankHistory
import Rumble.Proofs.OnScale

namespace Rumble

theorem Attenuation.scale_full :
    scale VoltageTable.maximum VoltageTable.maximum = .ok 0 := by decide +kernel

theorem Text.showWord_injective : Function.Injective showWord := by
  intro m n h
  have hm := readWord?_showWord m
  rw [h, readWord?_showWord] at hm
  exact (Option.some.inj hm).symm

def Operation.setsOverall : Operation → Bool
  | .activate _ | .deactivate | .setExternalControl _ => true
  | _ => false

def Operation.lastOverall? (ops : List Operation) : Option Operation :=
  ((ops.map direct).filter setsOverall).getLast?

theorem Operation.lastOverall?_concat (ops : List Operation) (op : Operation) :
    lastOverall? (ops ++ [op]) =
      if op.direct.setsOverall then some op.direct else lastOverall? ops := by
  rw [lastOverall?, List.map_append, List.filter_append, List.getLast?_append, lastOverall?]
  cases h : op.direct.setsOverall <;> simp [h]

/-- The level that is left by the last operation that set it. -/
def VoltageTable.overallAfter (table : VoltageTable) (last : Option Operation) : UInt32 :=
  (last.bind (·.overallLevel? table)).getD maximum

theorem Playback.register_mem_of_write {p : Playback} {r : Register} {value : String}
    (h : .write r value ∈ p.accesses) :
    r ∈ [Register.effectQueue, .effectScale, .effectIndex, .duration, .activate] := by
  rw [p.accesses_eq, List.mem_append] at h
  rcases h with h | h
  · rcases write_of_mem_preparation h with ⟨rfl, -⟩ | rfl <;> simp
  · rcases Access.write_of_mem_triggering h with rfl | rfl | ⟨rfl, -⟩ <;> simp

namespace Bank

/-- A bank with all registers between two operations. Whenever it says that external control is on,
or that a long vibration goes on, the last operation that set the overall level put it in force, or
was the end of the other of the two. -/
structure InForce (table : VoltageTable) (last : Option Operation) (b : Bank) : Prop where
  has : ∀ r, b.has r
  scale : ∃ n, Attenuation.scale (table.overallAfter last) VoltageTable.maximum = .ok n ∧
    b.value? .globalScale = some (Text.showWord n)
  external : b.value? .aspEnable = some "1" →
    ∃ op, last = some op ∧ (op = .deactivate ∨ op.overallLevel? table = some table.overall)
  vibrating : b.value? .activate = some "1" → b.value? .effectIndex = some "0" →
    ∃ op, last = some op ∧
      (op = .setExternalControl false ∨ op.overallLevel? table = some table.overall)

variable {table : VoltageTable} {last : Option Operation} {b : Bank} {as : List Access}

theorem value?_after_append (h : ∀ r, b.has r) (front : List Access) {r : Register}
    {value : String} (ht : Access.lastText? r as = some value) :
    (device.after (front ++ as) b).value? r = some value := by
  have hr : (device.after front b).has r := (has_after front b r).trans (h r)
  rw [Device.after_append, value?_after_of_has hr, ht, Option.some_or]

theorem exists_scale_after (h : ∀ r, b.has r) {l : UInt32} (hl : 1 ≤ l ∧ l ≤ 100)
    {rest : List Access} (hr : ∀ value, .write .globalScale value ∉ rest) :
    ∃ n, Attenuation.scale l VoltageTable.maximum = .ok n ∧
      (device.after (Access.level .globalScale l ++ rest) b).value? .globalScale =
        some (Text.showWord n) := by
  have hn := (Attenuation.scale_maximum l).trans (if_pos hl)
  refine ⟨_, hn, ?_⟩
  rw [Device.after_append, value?_after hr, Access.level, hn]
  exact value?_after_append h [] rfl

namespace InForce

/-- Operations that leave the overall level and its users alone keep what holds. An effect ends a
long vibration by its slot. -/
theorem keep (h : b.InForce table last) (hg : ∀ value, .write .globalScale value ∉ as)
    (ha : ∀ value, .write .aspEnable value ∉ as)
    (hv : (∃ slot, slot ≠ 0 ∧
        (device.after as b).value? .effectIndex = some (Text.showWord slot)) ∨
      (∀ value, .write .activate value ∉ as) ∧ ∀ value, .write .effectIndex value ∉ as) :
    (device.after as b).InForce table last where
  has r := (has_after as b r).trans (h.has r)
  scale := by
    rw [value?_after hg]
    exact h.scale
  external he := by
    rw [value?_after ha] at he
    exact h.external he
  vibrating hs hi := by
    rcases hv with ⟨slot, hn, hslot⟩ | ⟨hna, hni⟩
    · rw [hslot] at hi
      exact absurd (Text.showWord_injective (Option.some.inj hi)) hn
    · rw [value?_after hna] at hs
      rw [value?_after hni] at hi
      exact h.vibrating hs hi

theorem value?_eq_iff (h : b.InForce table last) {n : UInt32}
    (hn : Attenuation.scale table.overall VoltageTable.maximum = .ok n) {op lifting : Operation}
    (hl : last = some op) (ho : op = lifting ∨ op.overallLevel? table = some table.overall)
    (hz : lifting.overallLevel? table = some VoltageTable.maximum) :
    b.value? .globalScale = some (Text.showWord n) ↔ n = 0 ∨ last ≠ some lifting := by
  obtain ⟨m, hm, hs⟩ := h.scale
  have hnm : b.value? .globalScale = some (Text.showWord n) ↔ m = n := by
    rw [hs, Option.some_inj]
    exact Text.showWord_injective.eq_iff
  rw [hnm]
  subst hl
  by_cases he : op = lifting
  · -- A full level reads `0`, so the calibrated one is in force only if it is full as well.
    subst he
    have hf : table.overallAfter (some op) = VoltageTable.maximum := congrArg (Option.getD · _) hz
    rw [hf, Attenuation.scale_full] at hm
    obtain rfl := Except.ok.inj hm
    simp [eq_comm]
  · have hf : table.overallAfter (some op) = table.overall :=
      congrArg (Option.getD · _) (ho.resolve_left he)
    rw [hf, hn] at hm
    obtain rfl := Except.ok.inj hm
    simp [he]

end InForce

end Bank

namespace Controller

open Program

variable {c : Controller} {last : Option Operation} {b : Bank}

theorem inForce_after (h : b.InForce c.levels last)
    (hc : 1 ≤ c.levels.overall ∧ c.levels.overall ≤ 100) {op : Operation} {as : List Access}
    (ha : c.Attempts op as) :
    (Bank.device.after as b).InForce c.levels (if op.setsOverall then some op else last) := by
  have hf : 1 ≤ VoltageTable.maximum ∧ VoltageTable.maximum ≤ 100 := by decide
  have hall (as : List Access) (r : Register) : (Bank.device.after as b).has r :=
    (Bank.has_after as b r).trans (h.has r)
  cases ha with
  | activate ms =>
    exact ⟨hall _, Bank.exists_scale_after h.has hc (by simp [Access.word]),
      fun _ => ⟨_, rfl, .inr rfl⟩, fun _ _ => ⟨_, rfl, .inr rfl⟩⟩
  | deactivate =>
    refine ⟨hall _, Bank.exists_scale_after h.has hf (by simp), fun _ => ⟨_, rfl, .inl rfl⟩, ?_⟩
    intro hs
    rw [Bank.value?_after_append h.has _ rfl] at hs
    exact absurd hs (by decide)
  | setExternalControl enabled =>
    cases enabled with
    | true =>
      exact ⟨hall _, Bank.exists_scale_after h.has hc (by simp),
        fun _ => ⟨_, rfl, .inr rfl⟩, fun _ _ => ⟨_, rfl, .inr rfl⟩⟩
    | false =>
      refine ⟨hall _, Bank.exists_scale_after h.has hf (by simp), ?_, fun _ _ => ⟨_, rfl, .inl rfl⟩⟩
      intro hs
      rw [Bank.value?_after_append h.has _ rfl] at hs
      exact absurd hs (by decide)
  | @played e s entry p =>
    have hi : (Bank.device.after p.accesses b).value? .effectIndex =
        some (Text.showWord (if p.queue.isSome then 65534 else 2)) := by
      rw [p.accesses_eq]
      exact Bank.value?_after_append h.has _ rfl
    have hz : (if p.queue.isSome then 65534 else 2 : UInt32) ≠ 0 := by
      cases p.queue.isSome <;> decide
    apply h.keep _ _ (.inl ⟨_, hz, hi⟩)
    · intro value hm
      simpa using Playback.register_mem_of_write hm
    · intro value hm
      simpa using Playback.register_mem_of_write hm
  | queryCapabilities amplitude =>
    cases amplitude with
    | lacksAmplitude | supportsAmplitudeControl =>
      exact h.keep (by simp) (by simp) (.inr ⟨by simp, by simp⟩)
  | _ =>
    exact h.keep (by simp [Access.word]) (by simp [Access.word])
      (.inr ⟨by simp [Access.word], by simp [Access.word]⟩)

theorem inForce_operate (h : b.InForce c.levels last)
    (hc : 1 ≤ c.levels.overall ∧ c.levels.overall ≤ 100) (op : Operation) :
    ((c.operate op).run Bank.device b).state.InForce c.levels
      (if op.direct.setsOverall then some op.direct else last) := by
  rw [(run_eq_of_accesses (c.operate op) Bank.device b).2]
  exact inForce_after h hc (attempts_operate c op Bank.device b)

theorem inForce_reached (h : b.InForce c.levels none)
    (hc : 1 ≤ c.levels.overall ∧ c.levels.overall ≤ 100) (ops : List Operation) :
    (c.reached Bank.device ops b).InForce c.levels (Operation.lastOverall? ops) := by
  -- The last operation decides, so the induction takes them from behind.
  induction ops using List.reverseRecOn with
  | nil => exact h
  | append_singleton ops op ih =>
    rw [reached_concat, Operation.lastOverall?_concat]
    exact inForce_operate ih hc op

theorem inForce_start (cal : Calibration) (remarks : Calibration.Remarks) (catalog : Catalog)
    (table : VoltageTable) :
    ((start cal remarks catalog).run Bank.device (.without [])).state.InForce table none := by
  have hv {r : Register} (hr : r ∈ [Register.globalScale, .aspEnable, .activate]) :
      ((start cal remarks catalog).run Bank.device (.without [])).state.value? r = some "0" := by
    rw [(makes_start cal remarks catalog).state_run]
    apply Bank.value?_after
    intro value hm
    have hs := register_of_mem_startAccesses hm
    simp only [List.mem_cons, List.not_mem_nil, or_false] at hr
    rcases hr with rfl | rfl | rfl <;> simp at hs
  refine ⟨?_, ⟨0, Attenuation.scale_full, hv (by decide)⟩, ?_, ?_⟩
  · intro r
    rw [(makes_start cal remarks catalog).state_run, Bank.has_after]
    rfl
  · intro he
    rw [hv (by decide)] at he
    exact absurd he (by decide)
  · intro hs
    rw [hv (by decide)] at hs
    exact absurd hs (by decide)

/-- Over registers in memory, after any operations: the overall scale holds the level of the last
operation that set it. So the calibrated level is in force under external control unless a vibration
was stopped since, and during a long vibration unless external control was ended since. -/
theorem overall_level (cal : Calibration) (remarks : Calibration.Remarks) (catalog : Catalog)
    (ops : List Operation) :
    let startup := (start cal remarks catalog).run Bank.device (.without [])
    let levels := startup.value.levels
    let b := startup.value.reached Bank.device ops startup.state
    let last := Operation.lastOverall? ops
    1 ≤ levels.overall → levels.overall ≤ 100 →
      ∃ n, Attenuation.scale levels.overall VoltageTable.maximum = .ok n ∧
        (∃ m, Attenuation.scale (levels.overallAfter last) VoltageTable.maximum = .ok m ∧
          b.value? .globalScale = some (Text.showWord m)) ∧
        (b.value? .aspEnable = some "1" →
          (b.value? .globalScale = some (Text.showWord n) ↔ n = 0 ∨ last ≠ some .deactivate)) ∧
        (b.value? .activate = some "1" → b.value? .effectIndex = some "0" →
          (b.value? .globalScale = some (Text.showWord n) ↔
            n = 0 ∨ last ≠ some (.setExternalControl false))) := by
  intro startup levels b last h1 h100
  have h : b.InForce levels last :=
    inForce_reached (inForce_start cal remarks catalog _) ⟨h1, h100⟩ ops
  have hn := (Attenuation.scale_maximum levels.overall).trans (if_pos ⟨h1, h100⟩)
  refine ⟨_, hn, h.scale, ?_, ?_⟩
  · intro he
    obtain ⟨op, hl, ho⟩ := h.external he
    exact h.value?_eq_iff hn hl ho rfl
  · intro hs hi
    obtain ⟨op, hl, ho⟩ := h.vibrating hs hi
    exact h.value?_eq_iff hn hl ho rfl

/-- A stopped vibration under external control is followed by another one. -/
theorem overall_level_of_second_vibration :
    let ops := [.setExternalControl true, .handle .off, .handle (.on 20)]
    let startup := (start ⟨none, none, 0, none⟩ {} .standard).run Bank.device (.without [])
    let b := startup.value.reached Bank.device ops startup.state
    1 ≤ startup.value.levels.overall ∧ startup.value.levels.overall ≤ 100 ∧
      b.value? .aspEnable = some "1" ∧ b.value? .globalScale = some "19" := by
  have hl : ((start ⟨none, none, 0, none⟩ {} .standard).run Bank.device
      (.without [])).value.levels = .standard := by
    rw [value_start]
    rfl
  have hs : Attenuation.scale VoltageTable.standard.overall VoltageTable.maximum = .ok 19 := by
    decide +kernel
  have ht : Text.showWord 19 = "19" := by decide +kernel
  have hb : 1 ≤ VoltageTable.standard.overall ∧ VoltageTable.standard.overall ≤ 100 := by decide
  rw [← hl] at hb
  dsimp only
  obtain ⟨n, hn, -, hv, -⟩ := overall_level ⟨none, none, 0, none⟩ {} .standard
    [.setExternalControl true, .handle .off, .handle (.on 20)] hb.1 hb.2
  rw [hl, hs] at hn
  obtain rfl := Except.ok.inj hn
  rw [ht] at hv
  have he := hv (by decide +kernel)
  exact ⟨hb.1, hb.2, by decide +kernel, he.mpr (.inr (by decide +kernel))⟩

/-- The end of a vibration lifts the level under external control, and the end of external control
lifts it during a vibration. -/
theorem overall_level_lifted :
    let startup := (start ⟨none, none, 0, none⟩ {} .standard).run Bank.device (.without [])
    let stopped := startup.value.reached Bank.device [.setExternalControl true, .deactivate]
      startup.state
    let ended := startup.value.reached Bank.device [.activate 20, .setExternalControl false]
      startup.state
    Attenuation.scale startup.value.levels.overall VoltageTable.maximum = .ok 19 ∧
      stopped.value? .aspEnable = some "1" ∧ stopped.value? .globalScale ≠ some "19" ∧
      ended.value? .activate = some "1" ∧ ended.value? .effectIndex = some "0" ∧
      ended.value? .globalScale ≠ some "19" := by
  intro startup stopped ended
  refine ⟨?_, ?_, ?_, ?_, ?_, ?_⟩ <;> decide +kernel

end Controller

end Rumble
