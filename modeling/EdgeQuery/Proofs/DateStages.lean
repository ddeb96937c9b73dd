import EdgeQuery.Plan.Compile
import EdgeQuery.Edge.Stages
import EdgeQuery.Proofs.EdgeEntries
import EdgeQuery.Proofs.PauseResume
import EdgeQuery.Proofs.PhraseIndexText
/-! # The date stages of a plan

A plan starts with the stages that apply its dates: a `date-range` filter when both dates
are given (a `load-date` filter for the load date types), then a `date-type` filter unless
the date type takes every code or the load-date filter checks the code already. This module
shows that these stages, built by a registry that knows the edge stage kinds, keep exactly
the edges that the date filter asks for (`Plan.compile_dateStages_select`): an edge whose
date code the date type accepts and, when both dates are given, whose date lies between
them, both days included. The date is the one in the key, or the load date for the load
date types, which an edge must then have.

The filters compare dates as they are written, `yyyymmdd`, byte by byte. That is the
calendar order: eight digits compare as the number they write
(`lt_iff_digitsValue_lt`), and a date writes the number `year * 10000 + month * 100 + day`
(`Date.digitsValue_render`), which orders dates by year, then month, then day.

The edges are those that their entries hold (`Edge.Storable`): an edge with a slash in an
attribute is written under a qualifier of more than five parts, which the date-type
filter cannot split, so it drops the edge whatever its date code. -/

namespace EdgeQuery

/-! ## Written dates in calendar order -/

section DigitOrder

variable {α : Type} (val : α → Nat)

/-- The number a list of decimal digits writes, `val` reading each digit. -/
def digitsValue (xs : List α) : Nat := xs.foldl (fun n x => 10 * n + val x) 0

theorem foldl_digits (xs : List α) (init : Nat) :
    xs.foldl (fun n x => 10 * n + val x) init = 10 ^ xs.length * init + digitsValue val xs := by
  induction xs generalizing init with
  | nil => simp [digitsValue]
  | cons x xs ih =>
    simp only [digitsValue, List.foldl_cons, List.length_cons] at ih ⊢
    rw [ih, ih (10 * 0 + val x), Nat.pow_succ]
    ring

theorem digitsValue_cons (x : α) (xs : List α) :
    digitsValue val (x :: xs) = val x * 10 ^ xs.length + digitsValue val xs := by
  rw [digitsValue, List.foldl_cons, foldl_digits]
  ring

theorem digitsValue_append (xs ys : List α) :
    digitsValue val (xs ++ ys) = digitsValue val xs * 10 ^ ys.length + digitsValue val ys := by
  show List.foldl _ 0 (xs ++ ys) = _
  rw [List.foldl_append, foldl_digits val ys, Nat.mul_comm]
  rfl

theorem digitsValue_map {β : Type} (f : β → α) (xs : List β) :
    digitsValue val (xs.map f) = digitsValue (fun x => val (f x)) xs := by
  unfold digitsValue
  rw [List.foldl_map]

/-- Digits read alike give the same number. -/
theorem digitsValue_congr {val' : α → Nat} {xs : List α} (h : ∀ x ∈ xs, val x = val' x) :
    digitsValue val xs = digitsValue val' xs := by
  induction xs with
  | nil => rfl
  | cons x xs ih =>
    rw [digitsValue_cons, digitsValue_cons, h x (by simp), ih fun y hy => h y (by simp [hy])]

theorem digitsValue_lt {xs : List α} (h : ∀ x ∈ xs, val x < 10) :
    digitsValue val xs < 10 ^ xs.length := by
  induction xs with
  | nil => simp [digitsValue]
  | cons x xs ih =>
    have hx := h x (by simp)
    have hxs := ih fun y hy => h y (by simp [hy])
    rw [digitsValue_cons, List.length_cons, Nat.pow_succ]
    calc val x * 10 ^ xs.length + digitsValue val xs
        < val x * 10 ^ xs.length + 10 ^ xs.length := by omega
      _ = (val x + 1) * 10 ^ xs.length := by ring
      _ ≤ 10 ^ xs.length * 10 := by rw [Nat.mul_comm]; exact Nat.mul_le_mul_left _ hx

/-- Two numbers written with one number of digits compare by their leading digit, and on a
tie by the rest. -/
theorem mul_add_lt_mul_add_iff {P a b c d : Nat} (ha : a < P) (hb : b < P) :
    c * P + a < d * P + b ↔ c < d ∨ (c = d ∧ a < b) := by
  constructor
  · intro h
    rcases Nat.lt_trichotomy c d with hcd | rfl | hdc
    · exact .inl hcd
    · exact .inr ⟨rfl, by omega⟩
    · -- a larger leading digit outweighs any rest
      have : (d + 1) * P ≤ c * P := Nat.mul_le_mul_right _ hdc
      rw [Nat.succ_mul] at this
      omega
  · rintro (hcd | ⟨rfl, hab⟩)
    · have : (c + 1) * P ≤ d * P := Nat.mul_le_mul_right _ hcd
      rw [Nat.succ_mul] at this
      omega
    · omega

/-- Lists of digits of one length compare, element by element, as the numbers they write. -/
theorem lt_iff_digitsValue_lt [LT α] {xs ys : List α} (hlen : xs.length = ys.length)
    (hx : ∀ x ∈ xs, val x < 10) (hy : ∀ y ∈ ys, val y < 10)
    (hval : ∀ x ∈ xs, ∀ y ∈ ys, (x < y ↔ val x < val y) ∧ (x = y ↔ val x = val y)) :
    xs < ys ↔ digitsValue val xs < digitsValue val ys := by
  induction xs generalizing ys with
  | nil =>
    cases ys with
    | nil => simp [digitsValue]
    | cons y ys => simp at hlen
  | cons x xs ih =>
    cases ys with
    | nil => simp at hlen
    | cons y ys =>
      simp only [List.length_cons, Nat.add_right_cancel_iff] at hlen
      have hrest := ih hlen (fun x' hx' => hx x' (by simp [hx'])) (fun y' hy' => hy y' (by simp [hy']))
        (fun x' hx' y' hy' => hval x' (by simp [hx']) y' (by simp [hy']))
      have hxs : digitsValue val xs < 10 ^ xs.length := digitsValue_lt val fun x' hx' => hx x' (by simp [hx'])
      have hys : digitsValue val ys < 10 ^ ys.length := digitsValue_lt val fun y' hy' => hy y' (by simp [hy'])
      obtain ⟨hlt, heq⟩ := hval x (by simp) y (by simp)
      rw [List.cons_lt_cons_iff, digitsValue_cons, digitsValue_cons, hlt, heq, hrest, hlen,
        mul_add_lt_mul_add_iff (by rwa [← hlen]) hys]

end DigitOrder

namespace Date

/-- A date in the order of the calendar: by year, then month, then day. -/
theorem before_iff {a b : Date} :
    a.before b = true ↔
      a.year < b.year ∨ (a.year = b.year ∧ (a.month < b.month ∨ (a.month = b.month ∧ a.day < b.day))) := by
  simp [Date.before, Date.compare, Ordering.then_eq_lt, Nat.compare_eq_lt]

/-- The number a date writes, as `yyyymmdd`. -/
def key (d : Date) : Nat := d.year * 10000 + d.month * 100 + d.day

/-- Among dates that exist, one is before another when it writes a smaller number. -/
theorem before_iff_key_lt {a b : Date} (ha : a.Valid) (hb : b.Valid) : a.before b = true ↔ a.key < b.key := by
  have ham := ha.month
  have hbm := hb.month
  have had := Nat.le_trans ha.day.2 (daysIn_le a.year a.month)
  have hbd := Nat.le_trans hb.day.2 (daysIn_le b.year b.month)
  rw [before_iff, key, key]
  omega

/-- The digits of a written date, read as characters. -/
def charDigit (c : Char) : Nat := c.toNat - 48

/-- The written form of a date that exists writes its number. -/
theorem digitsValue_render {d : Date} (hd : d.Valid) : digitsValue charDigit d.render.toList = d.key := by
  obtain ⟨⟨hly, hvy⟩, ⟨hlm, hvm⟩, ⟨hld, hvd⟩⟩ := padded_fields hd
  -- each field reads back as its number, so its digits write it
  have hfield : ∀ {w n : Nat}, digits? (padded w n).toList = some n →
      digitsValue charDigit (padded w n).toList = n := by
    intro w n h
    rw [digits?_eq_some fun c hc => isDigit_of_mem_padded hc] at h
    exact Option.some.inj h
  have hcs : d.render.toList =
      (padded 4 d.year).toList ++ (padded 2 d.month).toList ++ (padded 2 d.day).toList := by
    simp [render]
  rw [hcs, digitsValue_append, digitsValue_append, hfield hvy, hfield hvm, hfield hvd, hlm, hld, key]
  ring

theorem charDigit_lt_ten {d : Date} {c : Char} (hc : c ∈ d.render.toList) : charDigit c < 10 := by
  have := toNat_of_isDigit (isDigit_of_mem_render hc)
  unfold charDigit
  omega

/-- Written dates that exist compare as text in the order of the calendar. -/
theorem render_lt_render_iff {a b : Date} (ha : a.Valid) (hb : b.Valid) :
    a.render < b.render ↔ a.before b = true := by
  show a.render.toList < b.render.toList ↔ _
  rw [lt_iff_digitsValue_lt charDigit (by rw [length_render ha, length_render hb])
      (fun _ hc => charDigit_lt_ten hc) (fun _ hc => charDigit_lt_ten hc),
    digitsValue_render ha, digitsValue_render hb, before_iff_key_lt ha hb]
  intro x hx y hy
  have hx' := toNat_of_isDigit (isDigit_of_mem_render hx)
  have hy' := toNat_of_isDigit (isDigit_of_mem_render hy)
  rw [Char.lt_def, UInt32.lt_iff_toNat_lt, ← Char.toNat_inj]
  unfold charDigit
  exact ⟨by simp only [Char.toNat] at hx' hy' ⊢; omega, by omega⟩

/-- The digits of a written date, read as bytes. -/
def byteDigit (b : UInt8) : Nat := b.toNat - 48

theorem toNat_ofChar_of_mem_render {d : Date} {c : Char} (hc : c ∈ d.render.toList) :
    (Bytes.ofChar c).toNat = c.toNat := by
  have := toNat_of_isDigit (isDigit_of_mem_render hc)
  simp [Bytes.ofChar, Nat.mod_eq_of_lt (by omega : c.toNat < 256)]

theorem digitsValue_ofString_render {d : Date} (hd : d.Valid) :
    digitsValue byteDigit (Bytes.ofString d.render) = d.key := by
  rw [ofString_render, digitsValue_map, ← digitsValue_render hd]
  exact digitsValue_congr _ fun c hc => by simp only [byteDigit, charDigit, toNat_ofChar_of_mem_render hc]

theorem byteDigit_bounds {d : Date} {x : UInt8} (hx : x ∈ Bytes.ofString d.render) :
    48 ≤ x.toNat ∧ x.toNat ≤ 57 := by
  rw [ofString_render] at hx
  obtain ⟨c, hc, rfl⟩ := List.mem_map.1 hx
  rw [toNat_ofChar_of_mem_render hc]
  exact toNat_of_isDigit (isDigit_of_mem_render hc)

/-- Written dates that exist compare byte by byte in the order of the calendar. -/
theorem ofString_render_lt_iff {a b : Date} (ha : a.Valid) (hb : b.Valid) :
    Bytes.ofString a.render < Bytes.ofString b.render ↔ a.before b = true := by
  have hdigit : ∀ {d : Date} {x : UInt8}, x ∈ Bytes.ofString d.render → byteDigit x < 10 := by
    intro d x hx
    have := byteDigit_bounds hx
    unfold byteDigit
    omega
  rw [lt_iff_digitsValue_lt byteDigit (by rw [length_ofString_render ha, length_ofString_render hb])
      (fun _ hx => hdigit hx) (fun _ hx => hdigit hx),
    digitsValue_ofString_render ha, digitsValue_ofString_render hb, before_iff_key_lt ha hb]
  intro x hx y hy
  have hx' := byteDigit_bounds hx
  have hy' := byteDigit_bounds hy
  rw [UInt8.lt_iff_toNat_lt, ← UInt8.toNat_inj]
  unfold byteDigit
  omega

/-- Whether a day lies between two days, both included. -/
def within (d first last : Date) : Bool := !d.before first && !last.before d

end Date

/-! ## Filters that judge each entry on its own -/

namespace Store

/-- A filter that keeps the entries a test accepts, never failing and logging what it likes,
judges each entry on its own. -/
theorem Filter.note_selects {keep : Nat → Entry → Except Report (Bool × List Log.Event)}
    {test : Entry → Bool} (h : ∀ n e, (keep n e).map Prod.fst = .ok (test e)) :
    Filter.Selects (Filter.note keep) test := by
  intro s
  -- the entries left after `seen` of them are filtered by the test alone
  have hgo : ∀ seen kept es, (Filter.note.go keep s seen kept es).entries = es.filter test ∧
      (Filter.note.go keep s seen kept es).failure = s.failure := by
    intro seen kept es
    induction es generalizing seen kept with
    | nil => exact ⟨rfl, rfl⟩
    | cons e rest ih =>
      cases hk : keep seen e with
      | error r =>
        have := h seen e
        rw [hk] at this
        cases this
      | ok r =>
        have htest : r.1 = test e := by
          have := h seen e
          rw [hk] at this
          exact Except.ok.inj this
        simp only [Filter.note.go, hk, List.filter_cons, ← htest]
        cases r.1 <;> simp [ih]
  exact hgo 0 0 s.entries

theorem Filter.select_selects {keep : Nat → Entry → Except Report Bool} {test : Entry → Bool}
    (h : ∀ n e, keep n e = .ok (test e)) : Filter.Selects (Filter.select keep) test :=
  Filter.note_selects fun n e => by simp [h, Except.map]

/-- Filters run one after another keep what each of them keeps. -/
theorem Filter.Selects.chain {fs : List Filter} {keeps : List (Entry → Bool)}
    (h : List.Forall₂ Filter.Selects fs keeps) : Filter.Selects (Filter.chain fs) fun e => keeps.all (· e) := by
  induction h with
  | nil =>
    intro s
    simp [Filter.chain]
  | @cons f k fs ks hf _ ih =>
    intro s
    obtain ⟨hfe, hff⟩ := hf s
    obtain ⟨hre, hrf⟩ := ih (f s)
    have hstep : Filter.chain (f :: fs) s = Filter.chain fs (f s) := rfl
    rw [hstep, hre, hrf, hfe, hff, List.filter_filter]
    exact ⟨List.filter_congr fun e _ => by simp [Bool.and_comm], rfl⟩

/-- A registry builds stages of a kind with a builder. -/
def Registry.Builds (reg : Registry) (kind : String) (b : Stage → Except Report Filter) : Prop :=
  reg.builders.find? (·.1 == kind) = some (kind, b)

theorem Registry.builds_register (r : Registry) (kind : String) (b : Stage → Except Report Filter) :
    (r.register kind b).Builds kind b := by
  have hnone : (r.builders.filter (·.1 != kind)).find? (·.1 == kind) = none := by
    rw [List.find?_eq_none]
    intro x hx
    have := (List.mem_filter.1 hx).2
    simpa using this
  simp [Registry.Builds, Registry.register, List.find?_append, hnone]

/-- Registering another kind keeps the builder of a kind. -/
theorem Registry.builds_register_of_ne {r : Registry} {kind other : String}
    {b b' : Stage → Except Report Filter} (h : r.Builds kind b) (hne : other ≠ kind) :
    (r.register other b').Builds kind b := by
  have hfilter : (r.builders.filter (·.1 != other)).find? (·.1 == kind) = r.builders.find? (·.1 == kind) := by
    rw [List.find?_filter]
    congr 1
    funext x
    by_cases hx : x.1 = kind
    · simp [hx, Ne.symm hne]
    · simp [hx]
  simp only [Registry.Builds, Registry.register, List.find?_append, hfilter]
  rw [h]
  rfl

theorem mapM_eq_ok_of_forall₂ {g : Stage → Except Report Filter} {stages : List Stage} {fs : List Filter}
    (h : List.Forall₂ (fun st f => g st = .ok f) stages fs) : stages.mapM g = .ok fs := by
  induction h with
  | nil => rfl
  | cons hg _ ih => simp [List.mapM_cons, hg, ih, bind, Except.bind, pure, Except.pure]

/-- Stages already in the order of their priorities build into their filters, run in turn. -/
theorem Registry.build_eq_chain {reg : Registry} {stages : List Stage} {fs : List Filter}
    (hsorted : stages.Pairwise fun a b => a.priority ≤ b.priority)
    (hfs : List.Forall₂ (fun st f => ∃ b, reg.Builds st.kind b ∧ b st = .ok f) stages fs) :
    reg.build stages = .ok (Filter.chain fs) := by
  unfold Registry.build
  rw [Stage.runOrder, List.mergeSort_of_pairwise (by simpa using hsorted), mapM_eq_ok_of_forall₂ (g := _) ?_]
  · rfl
  · refine hfs.imp fun st f hst => ?_
    obtain ⟨b, hb, hbf⟩ := hst
    simp only [Registry.Builds] at hb
    simp [hb, hbf, Except.mapError]

end Store

/-! ## The three date filters -/

namespace Edge

open Store

/-- Every date type reads back from its name. -/
theorem DateType.parse_name (dt : DateType) : DateType.parse dt.name = .ok dt := by
  have h : (DateType.parse dt.name).toOption = some dt := by
    cases dt <;> decide +kernel
  cases hp : DateType.parse dt.name with
  | error r =>
    rw [hp] at h
    cases h
  | ok d =>
    rw [hp] at h
    cases h
    rfl

/-- A stage's date type option that names a date type reads as it. -/
theorem dateTypeOption_name {st : Stage} {dt : DateType} (hdt : st.option? "date_type" = some dt.name) :
    dateTypeOption st = .ok dt := by
  simp [dateTypeOption, hdt, DateType.parse_name, Except.mapError]

/-- The options of a date filter read as the bounds they name, with no scan limit. -/
theorem DateBounds.ofStage_eq {st : Stage} {first last : Date} {skip : Int} (hf : first.Valid)
    (hl : last.Valid) (hord : last.before first = false) (h0 : 0 ≤ skip) (h63 : skip < Int.pow 2 63)
    (hbegin : st.option? "begin" = some first.render) (hend : st.option? "end" = some last.render)
    (hskip : st.option? "skip_limit" = some (toString skip))
    (hscan : st.option? "scan_limit" = some (toString (0 : Int))) :
    DateBounds.ofStage st = .ok { first := first.render, last := last.render, scanLimit := 0 } := by
  have hnot : ¬ first.render > last.render := fun h => by
    rw [GT.gt, Date.render_lt_render_iff hl hf, hord] at h
    cases h
  have hatoi : Read.atoi skip.repr = .ok skip := Read.atoi_toString h0 h63
  have hzero : Read.parseInt (Int.repr 0) = .ok 0 :=
    Read.atoi_eq_ok_iff.1 (Read.atoi_toString (Int.le_refl 0) (by decide))
  have hneg : ¬ skip < 0 := Int.not_lt.2 h0
  simp [DateBounds.ofStage, dateOption, countOption, hbegin, hend, hskip, hscan, Date.parse?_render hf,
    Date.parse?_render hl, hnot, hatoi, hzero, hneg, bind, Except.bind, pure, Except.pure]

/-- Between bounds that are written dates, a written date is kept when it lies between them. -/
theorem DateBounds.contains_render {first last d : Date} (hf : first.Valid) (hl : last.Valid)
    (hd : d.Valid) (scan : Int) :
    ({ first := first.render, last := last.render, scanLimit := scan } : DateBounds).contains
        (Bytes.ofString d.render) = d.within first last := by
  -- each bound is a byte comparison, which is the calendar order
  have h₁ : decide (Bytes.ofString first.render ≤ Bytes.ofString d.render) = !d.before first := by
    rw [Bool.eq_iff_iff, decide_eq_true_iff, ← List.not_lt, Date.ofString_render_lt_iff hd hf,
      Bool.not_eq_true', Bool.not_eq_true]
  have h₂ : decide (Bytes.ofString d.render ≤ Bytes.ofString last.render) = !last.before d := by
    rw [Bool.eq_iff_iff, decide_eq_true_iff, ← List.not_lt, Date.ofString_render_lt_iff hl hd,
      Bool.not_eq_true', Bool.not_eq_true]
  rw [DateBounds.contains, Date.within, h₁, h₂]

/-- The `date-range` filter keeps an entry whose key date lies in its bounds. -/
theorem dateRangeFilter_selects {st : Stage} {b : DateBounds} (hb : DateBounds.ofStage st = .ok b)
    (h0 : b.scanLimit = 0) :
    ∃ f, dateRangeFilter st = .ok f ∧ Filter.Selects f fun e => b.contains (qualifierDate e) := by
  refine ⟨_, by simp [dateRangeFilter, hb, bind, Except.bind, pure, Except.pure]; rfl,
    Filter.select_selects fun n e => ?_⟩
  simp [DateBounds.limited, h0]

/-- The `load-date` filter keeps an entry that reads as an edge with a load date in its
bounds and a date code its date type accepts. -/
theorem loadDateFilter_selects {S : Serial Stored} {st : Stage} {b : DateBounds} {dt : DateType}
    (hb : DateBounds.ofStage st = .ok b) (h0 : b.scanLimit = 0)
    (hdt : st.option? "date_type" = some dt.name) (hload : dt.isLoad = true) :
    ∃ f, loadDateFilter S st = .ok f ∧ Filter.Selects f fun e =>
      (decode S e).toOption.any fun x => x.loadDate.any fun d =>
        dt.accepts x.dateCode && b.contains (Bytes.ofString d.render) := by
  have hopt := dateTypeOption_name hdt
  refine ⟨_, by simp [loadDateFilter, hb, hopt, hload, bind, Except.bind, pure, Except.pure]; rfl,
    Filter.note_selects fun n e => ?_⟩
  simp only [DateBounds.limited, h0, lt_self_iff_false, decide_false, Bool.false_and, Bool.false_eq_true,
    if_false, Except.map]
  cases decode S e with
  | error r => rfl
  | ok x =>
    cases hl : x.loadDate <;> simp [hl, Except.toOption]

/-- The `date-type` filter keeps an entry whose key splits and whose date code its date type
accepts. -/
theorem dateTypeFilter_selects {st : Stage} {dt : DateType} (hdt : st.option? "date_type" = some dt.name) :
    ∃ f, dateTypeFilter st = .ok f ∧ Filter.Selects f fun e =>
      (splitKey e.key).toOption.any fun p => dt.accepts p.code := by
  have hopt := dateTypeOption_name hdt
  refine ⟨_, by simp [dateTypeFilter, hopt, bind, Except.bind, pure, Except.pure]; rfl,
    Filter.note_selects fun n e => ?_⟩
  cases splitKey e.key <;> rfl

/-! ## The date filters on edge entries -/

/-- The date in the qualifier of an edge's entry is the edge's date, as written. -/
theorem qualifierDate_entry {S : Serial Stored} (e : Edge) :
    qualifierDate (e.entry S) = Bytes.ofString e.date.render := by
  have hq : e.key.qualifier = Bytes.ofString e.date.render ++ 47 ::
      Bytes.joinWith [47] [e.attribute1, e.attribute2, e.attribute3, e.code] := by
    simp [Edge.key, Bytes.joinWith]
  rw [qualifierDate, Edge.entry, hq, Bytes.cut_append (slash_not_mem_render _)]

/-- An edge that its entry holds is read back with its date code as written and its load
date. -/
theorem decode_entry_dates {S : Serial Stored} {e : Edge} (hS : Keeps S e.stored) (he : Storable e) :
    ∃ x, decode S (e.entry S) = .ok x ∧ x.dateCode = e.code ∧ x.loadDate = e.loadDate := by
  have hne : (S.write e.stored).isEmpty = false := List.isEmpty_eq_false_iff.2 hS.nonempty
  have hread : S.read (S.write e.stored) = .ok e.stored := hS.readsBack
  unfold decode
  simp only [Edge.entry, splitKey_key he, hne, hread, bind, Except.bind, readDate?_render he.date,
    Except.mapError, Bool.false_eq_true, if_false]
  simp only [Edge.stored]
  rcases Option.eq_none_or_eq_some e.loadDate with hl | ⟨d, hl⟩
  · -- no load date is written, so none is read
    simp only [hl, Option.map_none, Option.getD_none, List.isEmpty_nil, if_true]
    exact ⟨_, rfl, rfl, rfl⟩
  · -- the load date is written, and reads back as itself as it is not the zero date
    obtain ⟨hwritten, hdate, hzero⟩ := loadDate_reads he hl
    simp only [hl, Option.map_some, Option.getD_some, hwritten, hdate, hzero, Bool.false_eq_true, if_false]
    exact ⟨_, rfl, rfl, rfl⟩

section EdgeKeeps

variable {S : Serial Stored} {e : Edge} (he : Storable e)
include he

/-- The `date-range` filter's test on an edge: its date lies between the bounds. -/
theorem contains_qualifierDate_entry {first last : Date} (hf : first.Valid) (hl : last.Valid) :
    ({ first := first.render, last := last.render, scanLimit := 0 } : DateBounds).contains
        (qualifierDate (e.entry S)) = e.date.within first last := by
  rw [qualifierDate_entry, DateBounds.contains_render hf hl he.date]

/-- The `load-date` filter's test on an edge: it has a load date between the bounds, and
its date code is accepted. -/
theorem loadDateTest_entry (hS : Keeps S e.stored) {first last : Date} (dt : DateType) (hf : first.Valid)
    (hl : last.Valid) :
    ((decode S (e.entry S)).toOption.any fun x => x.loadDate.any fun d =>
        dt.accepts x.dateCode &&
          ({ first := first.render, last := last.render, scanLimit := 0 } : DateBounds).contains
            (Bytes.ofString d.render)) =
      e.loadDate.any fun d => dt.accepts e.code && d.within first last := by
  obtain ⟨x, hx, hcode, hload⟩ := decode_entry_dates hS he
  rw [hx, Except.toOption, Option.any_some, hcode, hload]
  cases hd : e.loadDate with
  | none => rfl
  | some d =>
    have hvalid : d.Valid := (he.loadDate d (Option.mem_def.2 hd)).1
    simp only [Option.any_some, DateBounds.contains_render hf hl hvalid]

/-- The `date-type` filter's test on an edge: its date code is accepted. -/
theorem dateTypeTest_entry (dt : DateType) :
    ((splitKey (e.entry S).key).toOption.any fun p => dt.accepts p.code) = dt.accepts e.code := by
  rw [Edge.entry, splitKey_key he]
  rfl

end EdgeKeeps

/-- A date type that takes every code accepts each. -/
theorem DateType.accepts_of_isAny {dt : DateType} (h : dt.isAny = true) (code : Bytes) :
    dt.accepts code = true := by
  cases dt with
  | any | anyLoad => rfl
  | event | activity | load | activityLoad => cases h

/-- What the date filter asks of an edge: a date code that the date type accepts and, when
both dates are given, a date between them, both days included. The date is the load date
for the load date types, which the edge must then have, and the date in its key otherwise. -/
def DateType.admits (dt : DateType) (dates : Option (Date × Date)) (e : Edge) : Bool :=
  dt.accepts e.code && dates.all fun r =>
    (if dt.isLoad then e.loadDate else some e.date).any fun d => d.within r.1 r.2

end Edge

/-! ## Building the date stages -/

namespace Store

/-- A registry that builds the date stage kinds into the edge date filters, the load-date
filter reading stored values in the serial form `S`. -/
structure Registry.KnowsDateStages (S : Serial Edge.Stored) (reg : Registry) : Prop where
  dateRange : reg.Builds "date-range" Edge.dateRangeFilter
  loadDate : reg.Builds "load-date" (Edge.loadDateFilter S)
  dateType : reg.Builds "date-type" Edge.dateTypeFilter

/-- Registering the edge stages makes a registry know the date stages. -/
theorem Registry.knowsDateStages_registerStages (S : Serial Edge.Stored) (P : TokenCodec Edge.Prefilter)
    (r : Registry) : (Edge.registerStages S P r).KnowsDateStages S := by
  have hne₁ : "load-date" ≠ "date-range" := by decide
  have hne₂ : "date-type" ≠ "date-range" := by decide
  have hne₃ : "date-type" ≠ "load-date" := by decide
  have hne₄ : ∀ k ∈ ["date-range", "load-date", "date-type"], "expression" ≠ k := by decide
  refine ⟨?_, ?_, ?_⟩
  · exact builds_register_of_ne (builds_register_of_ne (builds_register_of_ne (builds_register _ _ _) hne₁) hne₂)
      (hne₄ _ (by simp))
  · exact builds_register_of_ne (builds_register_of_ne (builds_register _ _ _) hne₃) (hne₄ _ (by simp))
  · exact builds_register_of_ne (builds_register _ _ _) (hne₄ _ (by simp))

/-- Stages in the order of their priorities, each built into a filter that judges entries on
their own, build into one that keeps what all of them keep. -/
theorem Registry.build_selects {reg : Registry} {stages : List Stage} {keeps : List (Entry → Bool)}
    (hsorted : stages.Pairwise fun a b => a.priority ≤ b.priority)
    (h : List.Forall₂ (fun st k => ∃ b f, reg.Builds st.kind b ∧ b st = .ok f ∧ Filter.Selects f k)
      stages keeps) :
    ∃ f, reg.build stages = .ok f ∧ Filter.Selects f fun e => keeps.all (· e) := by
  -- the filters the stages build, each beside its stage and its test
  have hfs : ∃ fs, List.Forall₂ (fun st f => ∃ b, reg.Builds st.kind b ∧ b st = .ok f) stages fs ∧
      List.Forall₂ Filter.Selects fs keeps := by
    clear hsorted
    induction h with
    | nil => exact ⟨[], .nil, .nil⟩
    | cons hst _ ih =>
      obtain ⟨b, f, hb, hbf, hsel⟩ := hst
      obtain ⟨fs, hbuilt, hsels⟩ := ih
      exact ⟨f :: fs, .cons ⟨b, hb, hbf⟩ hbuilt, .cons hsel hsels⟩
  obtain ⟨fs, hbuilt, hsels⟩ := hfs
  exact ⟨_, build_eq_chain hsorted hbuilt, Filter.Selects.chain hsels⟩

/-- Stages that build as `build_selects` says keep the entries of the edges a test admits,
when their tests together do. -/
theorem Registry.selects_edges {reg : Registry} {stages : List Stage} {keeps : List (Entry → Bool)}
    (hsorted : stages.Pairwise fun a b => a.priority ≤ b.priority)
    (h : List.Forall₂ (fun st k => ∃ b f, reg.Builds st.kind b ∧ b st = .ok f ∧ Filter.Selects f k)
      stages keeps) {S : Serial Edge.Stored} {spec : Edge → Bool}
    (hspec : ∀ e : Edge, Edge.Storable e → keeps.all (· (e.entry S)) = spec e) :
    ∃ f keep, reg.build stages = .ok f ∧ Filter.Selects f keep ∧
      ∀ e : Edge, Edge.Storable e → keep (e.entry S) = spec e := by
  obtain ⟨f, hf, hsel⟩ := build_selects hsorted h
  exact ⟨f, _, hf, hsel, hspec⟩

end Store

/-! ## The date stages of a compiled plan -/

namespace Plan

open Store Edge

/-- The kinds of the date stages a plan starts with. -/
def dateStageKinds (dt : DateType) (p : Params) : List String :=
  (if p.dates.isSome then [if dt.isLoad then "load-date" else "date-range"] else []) ++
    (if (p.dates.isNone || !dt.isLoad) && !dt.isAny then ["date-type"] else [])

/-- A successful analysis read the date type given and found the dates in order. -/
theorem analyse_ok {l : Limits} {query : String} {p : Params} {a : Analysis}
    (h : analyse l query p = .ok a) :
    DateType.parse p.dateType = .ok a.dateType ∧ ∀ b e, p.dates = some (b, e) → e.before b = false := by
  unfold analyse at h
  simp only [bind, Except.bind, pure, Except.pure, throw, throwThe, MonadExceptOf.throw] at h
  split at h
  · cases h
  · cases hdt : DateType.parse p.dateType with
    | error r => simp [hdt, Except.mapError] at h
    | ok dt =>
      simp only [hdt, Except.mapError] at h
      -- every way through the rest of the checks that succeeds returns the date type read
      have hrest : a.dateType = dt := by
        repeat' split at h
        all_goals cases h <;> rfl
      refine ⟨by rw [hrest], fun b e hd => ?_⟩
      simp only [hd] at h
      split at h
      · cases h
      · rename_i hbe
        exact Bool.eq_false_iff.2 hbe

/-- Every unit of a plan has the stages the plan was built with. -/
theorem Analysis.plan_ok {a : Analysis} {P : TokenCodec Prefilter} {l : Limits} {p : Params} {plan : Plan}
    (h : a.plan P l p = .ok plan) :
    ∃ prefilter stages, stagesFor P l a.residual prefilter a.dateType p = .ok stages ∧
      ∀ u ∈ plan.units, u.stages = stages := by
  unfold Analysis.plan at h
  simp only [bind, Except.bind, pure, Except.pure] at h
  split at h
  · cases h
  · rename_i stages hstages
    refine ⟨_, stages, hstages, fun u hu => ?_⟩
    cases h
    simp only [ScanUnit.split] at hu
    split at hu
    · rw [List.mem_singleton.1 hu]
    · obtain ⟨rs, -, rfl⟩ := List.mem_map.1 hu
      rfl

section StageFilters

/-- A `date-type` stage of a plan builds into the date-type filter of its date type. -/
theorem dateTypeStage_selects {S : Serial Stored} {reg : Registry} (hreg : reg.KnowsDateStages S) {st : Stage}
    (dt : DateType)
    (hkind : st.kind = "date-type") (hopts : st.options = [("date_type", dt.name)]) :
    ∃ b f, reg.Builds st.kind b ∧ b st = .ok f ∧
      Filter.Selects f fun e => (splitKey e.key).toOption.any fun p => dt.accepts p.code := by
  have hdt : st.option? "date_type" = some dt.name := by simp [Stage.option?, hopts]
  obtain ⟨f, hf, hsel⟩ := dateTypeFilter_selects hdt
  exact ⟨_, f, hkind ▸ hreg.dateType, hf, hsel⟩

variable {st : Stage} {skip : Int} (hskip : 0 ≤ skip ∧ skip < Int.pow 2 63) {first last : Date}
  (hf : first.Valid) (hl : last.Valid) (hord : last.before first = false)
include hskip hf hl hord

/-- The options of a date stage of a plan read as its dates, with no scan limit. -/
theorem ofStage_dateOptions {rest : List (String × String)}
    (hopts : st.options = [("begin", first.render), ("end", last.render), ("skip_limit", toString skip),
      ("scan_limit", toString (0 : Int))] ++ rest) :
    DateBounds.ofStage st = .ok { first := first.render, last := last.render, scanLimit := 0 } :=
  DateBounds.ofStage_eq hf hl hord hskip.1 hskip.2 (by simp [Stage.option?, hopts])
    (by simp [Stage.option?, hopts]) (by simp [Stage.option?, hopts]) (by simp [Stage.option?, hopts])

variable {S : Serial Stored} {reg : Registry} (hreg : reg.KnowsDateStages S)
include hreg

/-- A `date-range` stage of a plan builds into the date-range filter between its dates. -/
theorem dateRangeStage_selects (hkind : st.kind = "date-range")
    (hopts : st.options = [("begin", first.render), ("end", last.render), ("skip_limit", toString skip),
      ("scan_limit", toString (0 : Int))]) :
    ∃ b f, reg.Builds st.kind b ∧ b st = .ok f ∧
      Filter.Selects f fun e =>
        ({ first := first.render, last := last.render, scanLimit := 0 } : DateBounds).contains (qualifierDate e) := by
  obtain ⟨f, hf', hsel⟩ :=
    dateRangeFilter_selects (ofStage_dateOptions hskip hf hl hord (by rw [hopts, List.append_nil])) rfl
  exact ⟨_, f, hkind ▸ hreg.dateRange, hf', hsel⟩

/-- A `load-date` stage of a plan builds into the load-date filter between its dates. -/
theorem loadDateStage_selects {dt : DateType} (hload : dt.isLoad = true) (hkind : st.kind = "load-date")
    (hopts : st.options = [("begin", first.render), ("end", last.render), ("skip_limit", toString skip),
      ("scan_limit", toString (0 : Int)), ("date_type", dt.name)]) :
    ∃ b f, reg.Builds st.kind b ∧ b st = .ok f ∧
      Filter.Selects f fun e => (decode S e).toOption.any fun x => x.loadDate.any fun d =>
        dt.accepts x.dateCode &&
          ({ first := first.render, last := last.render, scanLimit := 0 } : DateBounds).contains
            (Bytes.ofString d.render) := by
  have hdt : st.option? "date_type" = some dt.name := by simp [Stage.option?, hopts]
  obtain ⟨f, hf', hsel⟩ :=
    loadDateFilter_selects (ofStage_dateOptions hskip hf hl hord (by rw [hopts]; rfl)) rfl hdt hload
  exact ⟨_, f, hkind ▸ hreg.loadDate, hf', hsel⟩

end StageFilters

/-- The date stages at the front of a plan's stages keep exactly the edges the date filter
admits. -/
theorem stagesFor_dateStages {S : Serial Stored} {reg : Registry} (hreg : reg.KnowsDateStages S)
    (hS : ∀ e : Edge, Storable e → Keeps S e.stored) {P : TokenCodec Prefilter} {l : Limits}
    {residual : String} {prefilter : Prefilter} {dt : DateType} {p : Params} {stages : List Stage}
    (hscan : l.dateFilterScanLimit = 0)
    (hskip : 0 ≤ l.dateFilterSkipLimit ∧ l.dateFilterSkipLimit < Int.pow 2 63)
    (hdates : ∀ b e, p.dates = some (b, e) → b.Valid ∧ e.Valid ∧ e.before b = false)
    (h : stagesFor P l residual prefilter dt p = .ok stages) :
    ∃ pre rest, stages = pre ++ rest ∧ pre.map (·.kind) = dateStageKinds dt p ∧
      ∃ f keep, reg.build pre = .ok f ∧ Filter.Selects f keep ∧
        ∀ e : Edge, Storable e → keep (e.entry S) = dt.admits p.dates e := by
  unfold stagesFor at h
  simp only [bind, Except.bind, pure, Except.pure] at h
  split at h
  · cases h
  · obtain rfl := (Except.ok.inj h).symm
    clear h
    -- the date stages come first, numbered from the base priority
    rw [List.append_assoc, List.zipIdx_append, List.map_append]
    refine ⟨_, _, rfl, ?_⟩
    cases hd : p.dates with
    | none =>
      by_cases hany : dt.isAny = true
      · -- every code passes and no date is given: no date stage
        simp only [hany, Option.isNone_none, Bool.true_or, Bool.not_true, Bool.and_false,
          Bool.false_eq_true, if_false, List.append_nil, List.zipIdx_nil, List.map_nil]
        refine ⟨by simp [dateStageKinds, hd, hany], Registry.selects_edges .nil .nil fun e _ => ?_⟩
        simp [DateType.admits, DateType.accepts_of_isAny hany]
      · -- a date-type filter alone
        simp only [Bool.eq_false_iff.2 hany, Option.isNone_none, Bool.true_or, Bool.not_false,
          Bool.and_true, if_true, List.nil_append, List.zipIdx_cons, List.zipIdx_nil, List.map_cons,
          List.map_nil]
        refine ⟨by simp [dateStageKinds, hd, hany], Registry.selects_edges (by simp)
          (.cons (dateTypeStage_selects hreg dt (by rfl) (by rfl)) .nil) fun e he => ?_⟩
        simp [DateType.admits, dateTypeTest_entry he]
    | some be =>
      obtain ⟨first, last⟩ := be
      have hb : first.Valid := (hdates first last hd).1
      have he' : last.Valid := (hdates first last hd).2.1
      have hord : last.before first = false := (hdates first last hd).2.2
      by_cases hload : dt.isLoad = true
      · -- a load-date filter, which checks the code too
        simp only [hload, Option.isNone_some, Bool.false_or, Bool.not_true, Bool.false_and,
          Bool.false_eq_true, if_true, if_false, List.append_nil, List.zipIdx_cons, List.zipIdx_nil,
          List.map_cons, List.map_nil]
        refine ⟨by simp [dateStageKinds, hd, hload], Registry.selects_edges (by simp)
          (.cons (loadDateStage_selects hskip hb he' hord hreg hload (by rfl) (by simp [hscan])) .nil) fun e he => ?_⟩
        -- a missing load date fails the date check and the whole filter alike
        cases hl : e.loadDate <;> simp [DateType.admits, hload, loadDateTest_entry he (hS e he) dt hb he', hl]
      · by_cases hany : dt.isAny = true
        · -- a date-range filter alone
          simp only [Bool.eq_false_iff.2 hload, hany, Option.isNone_some, Bool.false_or, Bool.not_false,
            Bool.not_true, Bool.and_false, Bool.false_eq_true, if_false, List.append_nil, List.zipIdx_cons,
            List.zipIdx_nil, List.map_cons, List.map_nil]
          refine ⟨by simp [dateStageKinds, hd, hload, hany], Registry.selects_edges (by simp)
            (.cons (dateRangeStage_selects hskip hb he' hord hreg (by rfl) (by simp [hscan])) .nil) fun e he => ?_⟩
          simp [DateType.admits, hload, DateType.accepts_of_isAny hany,
            contains_qualifierDate_entry he hb he']
        · -- a date-range filter, then a date-type filter
          simp only [Bool.eq_false_iff.2 hload, Bool.eq_false_iff.2 hany, Option.isNone_some,
            Bool.false_or, Bool.not_false, Bool.and_true, if_true, List.cons_append, List.nil_append]
          refine ⟨by simp [dateStageKinds, hd, hload, hany], Registry.selects_edges (by simp)
            (.cons (dateRangeStage_selects hskip hb he' hord hreg (by rfl) (by simp [hscan]))
              (.cons (dateTypeStage_selects hreg dt (by rfl) (by rfl)) .nil)) fun e he => ?_⟩
          simp [DateType.admits, hload, contains_qualifierDate_entry he hb he',
            dateTypeTest_entry he, Bool.and_comm]

/-- The date stages of a compiled plan implement the date filter. Each unit's stages start
with the date stages, of the kinds `dateStageKinds` names; built by a registry that knows
the edge date filters, they keep an edge that its entry holds exactly when the date filter
admits it: its date code is accepted and, when both dates are given, its date (the load
date for the load date types) lies between them. The dates must exist in years of four
digits, the date filters must have no scan limit, and the skip limit must be a 64-bit
number that is not negative, as the filters check it. -/
theorem compile_dateStages_select {S : Serial Stored} {reg : Registry} (hreg : reg.KnowsDateStages S)
    (hS : ∀ e : Edge, Storable e → Keeps S e.stored) {P : TokenCodec Prefilter} {l : Limits}
    {query : String} {p : Params} {plan : Plan} {dt : DateType} (hdt : DateType.parse p.dateType = .ok dt)
    (hscan : l.dateFilterScanLimit = 0)
    (hskip : 0 ≤ l.dateFilterSkipLimit ∧ l.dateFilterSkipLimit < Int.pow 2 63)
    (hdates : ∀ b e, p.dates = some (b, e) → b.Valid ∧ e.Valid)
    (hc : compile P l query p = .ok plan) :
    ∀ u ∈ plan.units, ∃ pre rest, u.stages = pre ++ rest ∧ pre.map (·.kind) = dateStageKinds dt p ∧
      ∃ f keep, reg.build pre = .ok f ∧ Filter.Selects f keep ∧
        ∀ e : Edge, Storable e → keep (e.entry S) = dt.admits p.dates e := by
  unfold compile at hc
  simp only [bind, Except.bind] at hc
  split at hc
  · cases hc
  · rename_i a ha
    -- the analysis read the date type given and found the dates in order
    obtain ⟨hparse, hord⟩ := analyse_ok ha
    have hdt' : a.dateType = dt := by
      rw [hdt] at hparse
      exact (Except.ok.inj hparse).symm
    obtain ⟨prefilter, stages, hstages, hunits⟩ := Analysis.plan_ok hc
    rw [hdt'] at hstages
    intro u hu
    rw [hunits u hu]
    exact stagesFor_dateStages hreg hS hscan hskip
      (fun b e hd => ⟨(hdates b e hd).1, (hdates b e hd).2, hord b e hd⟩) hstages

/-- The activity edges of January 2024 between the sources `a`: a date-range stage, then a
date-type stage. -/
theorem compile_dateStages_select_january :
    let p : Params := { beginDate := some ⟨2024, 1, 1⟩, endDate := some ⟨2024, 1, 31⟩, dateType := "ACTIVITY" }
    ∃ plan, compile Cli.prefilterTokens {} "SOURCE == 'a'" p = .ok plan ∧
      ∀ u ∈ plan.units, ∃ pre rest, u.stages = pre ++ rest ∧
        pre.map (·.kind) = dateStageKinds .activity p ∧
        ∃ f keep, (Edge.registerStages Cli.storedSerial Cli.prefilterTokens {}).build pre = .ok f ∧
          Filter.Selects f keep ∧
          ∀ e : Edge, Storable e → keep (e.entry Cli.storedSerial) = DateType.activity.admits p.dates e := by
  intro p
  have hok : (compile Cli.prefilterTokens {} "SOURCE == 'a'" p).toOption.isSome = true := by decide +kernel
  obtain ⟨plan, hplan⟩ : ∃ plan, compile Cli.prefilterTokens {} "SOURCE == 'a'" p = .ok plan := by
    cases hc : compile Cli.prefilterTokens {} "SOURCE == 'a'" p with
    | error r =>
      rw [hc] at hok
      cases hok
    | ok plan => exact ⟨plan, rfl⟩
  have hdates : p.dates = some (⟨2024, 1, 1⟩, ⟨2024, 1, 31⟩) := rfl
  refine ⟨plan, hplan, compile_dateStages_select
    (Registry.knowsDateStages_registerStages Cli.storedSerial Cli.prefilterTokens {})
    (fun e he => keeps_storedSerial he) (DateType.parse_name .activity) rfl ⟨by decide, by decide⟩ (fun b e hd => ?_) hplan⟩
  rw [hdates] at hd
  cases hd
  exact ⟨by decide, by decide⟩

/-- An edge with a slash in an attribute is admitted by the date filter of `EVENT` without
dates, but the date-type stage of such a plan drops its entry: the qualifier has six parts
and the key does not split. -/
theorem dateTypeStage_drops_slashed_attribute :
    let e : Edge := { source := Bytes.ofString "a", sink := Bytes.ofString "b",
                      edgeType := Bytes.ofString "T", relation := Bytes.ofString "R",
                      attribute1 := Bytes.ofString "x/y", date := ⟨2024, 1, 1⟩, count := 1 }
    DateType.event.admits none e = true ∧
      ∃ f, (Edge.registerStages Cli.storedSerial Cli.prefilterTokens {}).build
          [{ priority := 30, name := "date-type", kind := "date-type", options := [("date_type", "EVENT")] }] =
          .ok f ∧ (f { entries := [e.entry Cli.storedSerial] }).entries = [] := by
  intro e
  obtain ⟨f, hf, hsel⟩ := @Registry.build_selects (Edge.registerStages Cli.storedSerial Cli.prefilterTokens {})
    [{ priority := 30, name := "date-type", kind := "date-type", options := [("date_type", "EVENT")] }] _
    (by simp) (.cons (dateTypeStage_selects
      (Registry.knowsDateStages_registerStages Cli.storedSerial Cli.prefilterTokens {}) .event (by rfl) (by rfl)) .nil)
  refine ⟨by decide +kernel, f, hf, ?_⟩
  rw [(hsel _).1]
  decide +kernel

end Plan

end EdgeQuery
