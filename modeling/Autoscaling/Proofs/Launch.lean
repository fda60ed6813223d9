import Autoscaling.Config.Document
import Autoscaling.Machine.Run
import Autoscaling.Proofs.Policy.Members

namespace Autoscaling

namespace Config

inductive FirstZero (c : Config) : Field → Prop
  | scalingInterval (zero : c.scalingInterval = .zero) : FirstZero c .scalingInterval
  | scalingThreads (interval : c.scalingInterval ≠ .zero) (zero : c.scalingThreads = 0) :
    FirstZero c .scalingThreads
  | workerExpiry (interval : c.scalingInterval ≠ .zero) (threads : c.scalingThreads ≠ 0)
    (zero : c.workerExpiry = .zero) : FirstZero c .workerExpiry
  | drainPollInterval (interval : c.scalingInterval ≠ .zero) (threads : c.scalingThreads ≠ 0)
    (expiry : c.workerExpiry ≠ .zero) (zero : c.drainPollInterval = .zero) :
    FirstZero c .drainPollInterval

variable {c : Config} {f : Field} {e : Invalid}

theorem nanos_beq_zero {d : Duration} : (d.nanos == 0) = true ↔ d = .zero :=
  beq_iff_eq.trans ⟨fun zero => Duration.ext zero, congrArg Duration.nanos⟩

theorem firstZero_of_fault? (fault : c.fault? = some f) : c.FirstZero f := by
  have nonzero {d : Duration} (h : (d.nanos == 0) = false) : d ≠ .zero := fun zero =>
    Bool.false_ne_true (h.symm.trans (nanos_beq_zero.2 zero))
  simp only [fault?, Field.all, List.find?_cons, List.find?_nil] at fault
  split at fault
  · next zero =>
    cases fault
    exact .scalingInterval (nanos_beq_zero.1 zero)
  · next interval =>
    split at fault
    · next zero =>
      cases fault
      exact .scalingThreads (nonzero interval) (eq_of_beq zero)
    · next threads =>
      split at fault
      · next zero =>
        cases fault
        exact .workerExpiry (nonzero interval) (ne_of_beq_false threads) (nanos_beq_zero.1 zero)
      · next expiry =>
        split at fault
        · next zero =>
          cases fault
          exact .drainPollInterval (nonzero interval) (ne_of_beq_false threads) (nonzero expiry)
            (nanos_beq_zero.1 zero)
        · cases fault

theorem FirstZero.isZero (first : c.FirstZero f) : c.isZero f = true := by
  cases first with
  | scalingInterval zero => exact nanos_beq_zero.2 zero
  | scalingThreads _ zero => exact beq_iff_eq.2 zero
  | workerExpiry _ _ zero => exact nanos_beq_zero.2 zero
  | drainPollInterval _ _ _ zero => exact nanos_beq_zero.2 zero

theorem FirstZero.unique {g : Field} (first : c.FirstZero f) (first' : c.FirstZero g) : f = g := by
  cases first <;> cases first' <;> first | rfl | contradiction

theorem fault?_eq_some_iff : c.fault? = some f ↔ c.FirstZero f := by
  refine ⟨firstZero_of_fault?, fun first => ?_⟩
  cases fault : c.fault? with
  | none => exact absurd first.isZero (List.find?_eq_none.1 fault f f.mem_all)
  | some g => exact congrArg some ((firstZero_of_fault? fault).unique first)

theorem validate_eq_error_iff : c.validate = .error e ↔ ∃ f, c.FirstZero f ∧ e = ⟨f.reason⟩ := by
  simp only [← fault?_eq_some_iff]
  unfold validate
  split
  · next f fault => simp [fault, eq_comm]
  · next none => simp [none]

theorem validate_eq_ok_or (c : Config) : c.validate = .ok () ∨ ∃ e, c.validate = .error e := by
  cases c.validate with
  | ok => exact .inl rfl
  | error e => exact .inr ⟨e, rfl⟩

theorem scalingThreads_pos (valid : c.validate = .ok ()) : 0 < c.scalingThreads.toNat := by
  have some : c.scalingThreads ≠ 0 := ne_of_beq_false (isZero_of_validate valid .scalingThreads)
  exact Nat.pos_of_ne_zero fun zero => some (UInt64.toNat_inj.1 zero)

theorem validate_of_read {text : String} (accepted : read text = .ok c) : c.validate = .ok () := by
  unfold read at accepted
  split at accepted
  · cases accepted
  · obtain ⟨d, -, accepted⟩ := exists_of_bind_eq_ok accepted
    obtain ⟨_, valid, accepted⟩ := exists_of_bind_eq_ok accepted
    cases accepted
    exact eq_ok_of_mapError_eq_ok valid

end Config

namespace Machine

variable {c : Config} {timed : Bool} {scenario : Scenario}

theorem ofConfig_of_invalid {e : Config.Invalid} (invalid : c.validate = .error e) :
    ofConfig c timed scenario = .refused (.config e) := by
  unfold ofConfig
  split
  · next e' other =>
    cases invalid.symm.trans other
    rfl
  · next valid => cases invalid.symm.trans valid

theorem exists_ofConfig (valid : c.validate = .ok ())
    (fits : c.scalingThreads.toNat ≤ Pool.maxSlots) : ∃ s, ofConfig c timed scenario = .made s := by
  obtain ⟨pool, create⟩ :
      ∃ pool, Pool.create c.scalingThreads.toNat c.workerExpiry.millis = .made pool := by
    rw [Pool.create, if_neg (Nat.ne_of_gt (Config.scalingThreads_pos valid)),
      if_neg (Nat.not_lt_of_le fits)]
    exact ⟨_, rfl⟩
  refine ⟨{
    pool, timed, scenario
    interval := c.scalingInterval
    drainPoll := c.drainPollInterval
    interval_pos := Config.scalingInterval_pos valid
    drainPoll_pos := Config.drainPollInterval_pos valid }, ?_⟩
  unfold ofConfig
  split
  · next invalid => cases valid.symm.trans invalid
  · rw [create]

theorem ofConfig_of_maxSlots_lt (valid : c.validate = .ok ())
    (more : Pool.maxSlots < c.scalingThreads.toNat) : ofConfig c timed scenario = .crashed := by
  have create : Pool.create c.scalingThreads.toNat c.workerExpiry.millis = .crashed := by
    rw [Pool.create, if_neg (Nat.ne_of_gt (Config.scalingThreads_pos valid)), if_pos more]
  unfold ofConfig
  split
  · next invalid => cases valid.symm.trans invalid
  · rw [create]

theorem ofConfig_cases (c : Config) (timed : Bool) (scenario : Scenario) :
    (∃ i, c.validate = .error i ∧ ofConfig c timed scenario = .refused (.config i)) ∨
    (c.validate = .ok () ∧ c.scalingThreads.toNat ≤ Pool.maxSlots ∧
      ∃ s, ofConfig c timed scenario = .made s) ∨
    (c.validate = .ok () ∧ Pool.maxSlots < c.scalingThreads.toNat ∧
      ofConfig c timed scenario = .crashed) := by
  rcases c.validate_eq_ok_or with valid | ⟨i, invalid⟩
  · rcases Nat.lt_or_ge Pool.maxSlots c.scalingThreads.toNat with more | fits
    · exact .inr (.inr ⟨valid, more, ofConfig_of_maxSlots_lt valid more⟩)
    · exact .inr (.inl ⟨valid, fits, exists_ofConfig valid fits⟩)
  · exact .inl ⟨i, invalid, ofConfig_of_invalid invalid⟩

structure Launch (c : Config) (x : Creation Error Machine) : Prop where
  made : (∃ s, x = .made s) ↔ c.validate = .ok () ∧ c.scalingThreads.toNat ≤ 2 ^ 61 - 1
  refused : ∀ e, x = .refused e ↔ ∃ f, c.FirstZero f ∧ e = .config ⟨f.reason⟩
  checked : ∀ e, x = .refused e ↔ ∃ i, c.validate = .error i ∧ e = .config i
  crashed : x = .crashed ↔ c.validate = .ok () ∧ 2 ^ 61 - 1 < c.scalingThreads.toNat
  accepted : ∀ text, Config.read text = .ok c →
    ((∃ s, x = .made s) ↔ c.scalingThreads.toNat ≤ 2 ^ 61 - 1)

/-- A loop is launched if no setting is zero and its threads can be counted. -/
theorem launch_ofConfig (c : Config) (timed : Bool) (scenario : Scenario) :
    Launch c (ofConfig c timed scenario) := by
  have checked (e : Error) : ofConfig c timed scenario = .refused e ↔
      ∃ i, c.validate = .error i ∧ e = .config i := by
    rcases ofConfig_cases c timed scenario with
      ⟨i, invalid, eq⟩ | ⟨valid, -, s, eq⟩ | ⟨valid, -, eq⟩
    · simp [invalid, eq, eq_comm]
    · simp [valid, eq]
    · simp [valid, eq]
  have made : (∃ s, ofConfig c timed scenario = .made s) ↔
      c.validate = .ok () ∧ c.scalingThreads.toNat ≤ 2 ^ 61 - 1 := by
    rcases ofConfig_cases c timed scenario with
      ⟨i, invalid, eq⟩ | ⟨valid, fits, s, eq⟩ | ⟨valid, more, eq⟩
    · simp [invalid, eq]
    · exact iff_of_true ⟨s, eq⟩ ⟨valid, fits⟩
    · refine iff_of_false (by simp [eq]) fun fits => absurd fits.2 (Nat.not_le_of_lt more)
  constructor
  case made => exact made
  case checked => exact checked
  case refused =>
    intro e
    rw [checked]
    constructor
    · rintro ⟨i, invalid, rfl⟩
      obtain ⟨f, first, rfl⟩ := Config.validate_eq_error_iff.1 invalid
      exact ⟨f, first, rfl⟩
    · rintro ⟨f, first, rfl⟩
      exact ⟨_, Config.validate_eq_error_iff.2 ⟨f, first, rfl⟩, rfl⟩
  case crashed =>
    rcases ofConfig_cases c timed scenario with
      ⟨i, invalid, eq⟩ | ⟨valid, fits, s, eq⟩ | ⟨valid, more, eq⟩
    · simp [invalid, eq]
    · refine iff_of_false (by simp [eq]) fun more => absurd more.2 (Nat.not_lt_of_le fits)
    · exact iff_of_true eq ⟨valid, more⟩
  case accepted =>
    intro text read
    rw [made, and_iff_right (Config.validate_of_read read)]

/-- A text may ask for 2^61 threads; no check objects, and the construction does not return. -/
theorem crashes_manyThreads :
    Config.read "scaling_threads = 2305843009213693952" =
      .ok { scalingThreads := 2305843009213693952 } ∧
    ({ scalingThreads := 2305843009213693952 } : Config).validate = .ok () ∧
    ofConfig { scalingThreads := 2305843009213693952 } false {} = .crashed :=
  ⟨by decide +kernel, by decide +kernel,
    ofConfig_of_maxSlots_lt (by decide +kernel) (by decide +kernel)⟩

end Machine

end Autoscaling
