import EdgeQuery.Log.Filter
/-! # The level pre-check of a filtered logger

Logging an event goes through two tests. First the logger is asked whether the event's
level is wanted at all (`Logger.enabled`); only then is the event built and handed to the
filter, which looks up the level of the event's component and passes the event on to the
writer when the event reaches it (`Logger.forwards`). `Logger.log` is the two in turn
(`Logger.log_eq`). The first test cannot see the event's attributes: a logger bound to no
component asks for the lowest level set anywhere, which every component's level is at least
(`Levels.lowest_le_get`), and a logger bound to a component asks for that component's level.

The filter, though, lets an event name its own component: its first `component` attribute
wins over the one bound to the logger. So the pre-check is conservative for every event
except one of a bound logger that names another component, whose level the event reaches
while it stays below the bound component's level (`Logger.enabled_of_forwards`). Such an
event is dropped before the filter sees it (`Logger.enabled_drops_other_component`). -/

namespace EdgeQuery.Log

namespace Levels

/-- A running minimum is at most its start and every value it went through. -/
theorem foldl_min_le (cs : List (String × Level)) (d : Level) :
    cs.foldl (fun m p => min m p.2) d ≤ d ∧ ∀ p ∈ cs, cs.foldl (fun m p => min m p.2) d ≤ p.2 := by
  induction cs generalizing d with
  | nil => simp
  | cons q cs ih =>
    obtain ⟨hd, hmem⟩ := ih (min d q.2)
    refine ⟨Int.le_trans hd (Int.min_le_left _ _), fun p hp => ?_⟩
    rcases List.mem_cons.1 hp with rfl | hp
    · exact Int.le_trans hd (Int.min_le_right _ _)
    · exact hmem p hp

theorem mem_of_lookup_eq_some {cs : List (String × Level)} {c : String} {v : Level}
    (h : cs.lookup c = some v) : (c, v) ∈ cs := by
  obtain ⟨before, after, rfl, -⟩ := List.lookup_eq_some_iff.1 h
  simp

/-- No component has a level below the lowest level: neither one with a level of its own
nor one that falls back to the default. -/
theorem lowest_le_get (ls : Levels) (c : String) : ls.lowest ≤ ls.get c := by
  obtain ⟨hd, hmem⟩ := foldl_min_le ls.components ls.default
  unfold get
  cases h : ls.components.lookup c with
  | none => exact hd
  | some v => exact hmem (c, v) (mem_of_lookup_eq_some h)

end Levels

namespace Logger

variable {ls : Levels} {lg : Logger} {level : Level} {attrs : List (String × Value)}

/-- The filter's own decision on an event, taken when the event is handled: there is a
writer, and the event reaches the level of its component. -/
def forwards (ls : Levels) (lg : Logger) (level : Level) (attrs : List (String × Value)) : Bool :=
  lg.writer.isSome && decide (ls.get (lg.eventComponent attrs) ≤ level)

/-- Logging an event writes its line exactly when the pre-check wants its level and the
filter passes it on. -/
theorem log_eq (message : String) :
    lg.log ls level message attrs =
      if lg.enabled ls level && lg.forwards ls level attrs then
        (lg.writer.map (·.line level message attrs)).getD ""
      else "" := by
  unfold log forwards
  cases lg.writer <;> simp

/-- The event's component is the value of its first `component` attribute, if it has one,
and else the component bound to the logger. -/
theorem eventComponent_eq (lg : Logger) (attrs : List (String × Value)) :
    (∃ v, attrs.find? (·.1 == componentKey) = some (componentKey, v) ∧
      lg.eventComponent attrs = v.plain) ∨
    (attrs.find? (·.1 == componentKey) = none ∧ lg.eventComponent attrs = lg.component) := by
  unfold eventComponent
  cases h : attrs.find? (·.1 == componentKey) with
  | none => exact .inr ⟨rfl, rfl⟩
  | some p =>
    have hk := List.find?_some h
    simp only [beq_iff_eq] at hk
    exact .inl ⟨p.2, by rw [← hk], rfl⟩

/-- The pre-check wants every event the filter passes on to a writer that accepts its level,
unless the logger is bound to a component and the event names another component of its own,
whose level it reaches while it stays below the level of the bound one. -/
theorem enabled_of_forwards (hd : lg.discards = false)
    (hnext : lg.floor.all (fun f => decide (f ≤ level)) = true)
    (hf : lg.forwards ls level attrs = true) :
    lg.enabled ls level = true ∨
      (lg.component ≠ "" ∧ ∃ v, attrs.find? (·.1 == componentKey) = some (componentKey, v) ∧
        v.plain ≠ lg.component ∧ ls.get v.plain ≤ level ∧ level < ls.get lg.component) := by
  have hreach : ls.get (lg.eventComponent attrs) ≤ level := by
    simp only [forwards, Bool.and_eq_true, decide_eq_true_eq] at hf
    exact hf.2
  -- the pre-check passes once the level reaches its threshold
  have enabled_of : (if lg.component.isEmpty then ls.lowest else ls.get lg.component) ≤ level →
      lg.enabled ls level = true := by
    intro h
    simp only [enabled, hd, hnext, Bool.not_false, Bool.or_true, Bool.and_true, Bool.true_and,
      decide_eq_true_eq]
    exact h
  by_cases hbound : lg.component = ""
  · -- unbound: the threshold is the lowest level, below every component's
    left
    have hempty : lg.component.isEmpty = true := by
      rw [hbound]
      rfl
    apply enabled_of
    simp only [hempty, ↓reduceIte]
    exact Int.le_trans (Levels.lowest_le_get ls _) hreach
  · have hne : lg.component.isEmpty = false := by simpa using hbound
    by_cases hlt : level < ls.get lg.component
    · right
      refine ⟨hbound, ?_⟩
      rcases eventComponent_eq lg attrs with ⟨v, hv, hc⟩ | ⟨-, hc⟩
      · refine ⟨v, hv, fun heq => ?_, hc ▸ hreach, hlt⟩
        rw [hc, heq] at hreach
        exact absurd hreach (Int.not_le.mpr hlt)
      · -- without a component of its own the event is filtered at the bound level
        rw [hc] at hreach
        exact absurd hreach (Int.not_le.mpr hlt)
    · left
      apply enabled_of
      simp only [hne, Bool.false_eq_true, ↓reduceIte]
      exact Int.not_lt.mp hlt

/-- A logger bound to no component wants every event its filter passes on: with `a` at
`WARN` and the default at `DEBUG`, an event of component `b` at `DEBUG`. -/
theorem enabled_unbound_other_component :
    ({} : Logger).forwards (({ default := debug } : Levels).set "a" warn) debug
        [(componentKey, .text "b")] = true ∧
      ({} : Logger).enabled (({ default := debug } : Levels).set "a" warn) debug = true := by
  have hf : ({} : Logger).forwards (({ default := debug } : Levels).set "a" warn) debug
      [(componentKey, .text "b")] = true := by
    decide +kernel
  refine ⟨hf, ?_⟩
  rcases enabled_of_forwards rfl rfl hf with h | ⟨hb, -⟩
  · exact h
  · exact absurd rfl hb

/-- With `a` at `WARN` and the default at `DEBUG`, the logger of component `a` drops an event
at `DEBUG` that names component `b` of its own, though the filter would pass it on: the
pre-check asks for the level of `a`. -/
theorem enabled_drops_other_component :
    (({} : Logger).forComponent "a").forwards (({ default := debug } : Levels).set "a" warn) debug
        [(componentKey, .text "b")] = true ∧
      (({} : Logger).forComponent "a").enabled (({ default := debug } : Levels).set "a" warn) debug = false ∧
      (({} : Logger).forComponent "a").log (({ default := debug } : Levels).set "a" warn) debug "m"
        [(componentKey, .text "b")] = "" := by
  decide +kernel

end Logger

end EdgeQuery.Log
