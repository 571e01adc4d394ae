import Mathlib.Algebra.Order.Ring.Nat
import Mathlib.Data.List.Basic

/-!
# Lazy producers and the sequences they produce

A producer is a step function that answers one item, answers that it is
drained, or fails.  `Produces next pending` says that the producer is a lazy
presentation of the sequence `pending`: a call takes the head of the sequence
and leaves its tail.  A failing item ends every run that reaches it.

The module proves what any number of successive calls can answer, so that an
application only has to exhibit `pending` and check one call.
-/

namespace RustKernel.Foundations

universe u v w

variable {σ : Type u} {ε : Type v} {α : Type w}

/-- One call of `next` consumes exactly one entry of `pending`. -/
structure Produces
    (next : σ → Except ε (Option α × σ))
    (pending : σ → List (Except ε α)) : Prop where
  drained :
    ∀ state, pending state = [] →
      ∃ after, next state = .ok (none, after) ∧ pending after = []
  failing :
    ∀ state fault rest, pending state = .error fault :: rest →
      next state = .error fault
  yielding :
    ∀ state item rest, pending state = .ok item :: rest →
      ∃ after, next state = .ok (some item, after) ∧ pending after = rest

/-- The answers of `count` successive calls, in call order. -/
def takeNext (next : σ → Except ε (Option α × σ)) :
    Nat → σ → Except ε (List (Option α) × σ)
  | 0, state => .ok ([], state)
  | count + 1, state =>
      match next state with
      | .error fault => .error fault
      | .ok (answer, after) =>
          match takeNext next count after with
          | .error fault => .error fault
          | .ok (answers, final) => .ok (answer :: answers, final)

def itemsOf (answers : List (Option α)) : List α :=
  answers.filterMap id

@[simp]
theorem itemsOf_map_some_append_replicate
    (items : List α) (padding : Nat) :
    itemsOf (items.map some ++ List.replicate padding none) = items := by
  simp [itemsOf]

/-- An answer `none` stands behind all items and inside the padding. -/
theorem itemsOf_take_of_drained
    {items : List α} {padding index : Nat}
    (drained :
      (items.map some ++ List.replicate padding none)[index]? =
        some none) :
    0 < padding ∧
      itemsOf ((items.map some ++ List.replicate padding none).take index) =
        items := by
  have past : items.length ≤ index := by
    by_contra early
    rw [List.getElem?_append_left (by simp; omega)] at drained
    simp [show index < items.length by omega] at drained
  rw [List.getElem?_append_right (by simpa using past)] at drained
  have padded : index - items.length < padding := by
    simpa [List.getElem?_replicate] using drained
  refine ⟨by omega, ?_⟩
  rw [List.take_append, List.take_of_length_le (by simpa using past),
    List.take_replicate, itemsOf_map_some_append_replicate]

/-- `entries` is the list `items` up to the first fault, if there is one. -/
inductive Presents : List (Except ε α) → List α → Prop
  | nil : Presents [] []
  | cons (item : α) {entries : List (Except ε α)} {items : List α} :
      Presents entries items →
      Presents (.ok item :: entries) (item :: items)
  | fault (fault : ε) (entries : List (Except ε α)) (items : List α) :
      Presents (.error fault :: entries) items

namespace Presents

theorem append
    {entries laterEntries : List (Except ε α)} {items laterItems : List α}
    (presents : Presents entries items)
    (laterPresents : Presents laterEntries laterItems) :
    Presents (entries ++ laterEntries) (items ++ laterItems) := by
  induction presents with
  | nil => exact laterPresents
  | cons item _ inductionHypothesis =>
      exact Presents.cons item inductionHypothesis
  | fault fault entries items => exact Presents.fault fault _ _

theorem flatMap
    {ι : Type u} {sources : List ι}
    {entries : ι → List (Except ε α)} {items : ι → List α}
    (presents : ∀ source ∈ sources, Presents (entries source) (items source)) :
    Presents (sources.flatMap entries) (sources.flatMap items) := by
  induction sources with
  | nil => exact Presents.nil
  | cons source rest inductionHypothesis =>
      rw [List.flatMap_cons, List.flatMap_cons]
      apply Presents.append
      · exact presents source (by simp)
      · apply inductionHypothesis
        intro later member
        exact presents later (by simp [member])

theorem of_map
    {ι : Type u} {sources : List ι}
    {entry : ι → Except ε α} {item : ι → α}
    (agree : ∀ source ∈ sources, ∀ value,
      entry source = .ok value → value = item source) :
    Presents (sources.map entry) (sources.map item) := by
  induction sources with
  | nil => exact Presents.nil
  | cons source rest inductionHypothesis =>
      have restPresents := inductionHypothesis fun later member =>
        agree later (by simp [member])
      cases converted : entry source with
      | error fault =>
          rw [List.map_cons, converted]
          exact Presents.fault fault _ _
      | ok value =>
          have same := agree source (by simp) value converted
          rw [List.map_cons, List.map_cons, converted, same]
          exact Presents.cons _ restPresents

theorem of_items (items : List α) :
    Presents (items.map .ok : List (Except ε α)) items := by
  induction items with
  | nil => exact Presents.nil
  | cons item rest inductionHypothesis =>
      exact Presents.cons item inductionHypothesis

/-- A run of good entries is an initial piece of the presented items, and all
of them when nothing follows. -/
theorem good_entries
    {good items : List α} {rest : List (Except ε α)}
    (presents : Presents (good.map .ok ++ rest) items) :
    good <+: items ∧ (rest = [] → good = items) := by
  induction good generalizing items with
  | nil =>
      constructor
      · exact List.nil_prefix
      · intro empty
        rw [empty] at presents
        cases presents
        rfl
  | cons item good inductionHypothesis =>
      cases presents with
      | cons _ tailPresents =>
          have tail := inductionHypothesis tailPresents
          exact ⟨List.cons_prefix_cons.mpr ⟨rfl, tail.1⟩, fun empty => by
            rw [tail.2 empty]⟩

end Presents

/-! ## Items before the first fault -/

/-- No entry is a fault. -/
def Faultless (entries : List (Except ε α)) : Prop :=
  ∀ entry ∈ entries, ∃ item, entry = .ok item

/-- The item stands before every fault. -/
inductive Reached (item : α) : List (Except ε α) → Prop
  | here (entries : List (Except ε α)) : Reached item (.ok item :: entries)
  | later (other : α) {entries : List (Except ε α)} :
      Reached item entries → Reached item (.ok other :: entries)

@[simp]
theorem not_reached_nil {item : α} :
    ¬ Reached item ([] : List (Except ε α)) := nofun

@[simp]
theorem not_reached_cons_error {item : α} {fault : ε}
    {entries : List (Except ε α)} :
    ¬ Reached item (.error fault :: entries) := nofun

@[simp]
theorem reached_cons_ok {item other : α} {entries : List (Except ε α)} :
    Reached item (.ok other :: entries) ↔
      other = item ∨ Reached item entries := by
  constructor
  · intro reached
    cases reached with
    | here => exact Or.inl rfl
    | later _ reached => exact Or.inr reached
  · rintro (rfl | reached)
    · exact Reached.here entries
    · exact Reached.later other reached

theorem reached_map_ok {item : α} {items : List α} :
    Reached item (items.map .ok : List (Except ε α)) ↔ item ∈ items := by
  induction items with
  | nil => simp
  | cons first rest inductionHypothesis =>
      rw [List.map_cons, reached_cons_ok, inductionHypothesis, List.mem_cons,
        eq_comm]

theorem Reached.split {item : α} {entries : List (Except ε α)}
    (reached : Reached item entries) :
    ∃ (items : List α) (rest : List (Except ε α)),
      entries = items.map .ok ++ rest ∧ item ∈ items := by
  induction reached with
  | here entries => exact ⟨[item], entries, rfl, by simp⟩
  | later other _ inductionHypothesis =>
      obtain ⟨items, rest, rfl, member⟩ := inductionHypothesis
      exact ⟨other :: items, rest, rfl, by simp [member]⟩

theorem reached_append {item : α} {entries laterEntries : List (Except ε α)} :
    Reached item (entries ++ laterEntries) ↔
      Reached item entries ∨
        Faultless entries ∧ Reached item laterEntries := by
  induction entries with
  | nil => simp [Faultless]
  | cons entry entries inductionHypothesis =>
      cases entry with
      | error fault => simp [Faultless]
      | ok other =>
          simp only [List.cons_append, reached_cons_ok, inductionHypothesis,
            Faultless, List.forall_mem_cons, Except.ok.injEq,
            exists_eq', true_and, or_assoc]

theorem reached_flatMap {ι : Type u} {item : α} {sources : List ι}
    {entries : ι → List (Except ε α)} :
    Reached item (sources.flatMap entries) ↔
      ∃ front source back, sources = front ++ source :: back ∧
        (∀ earlier ∈ front, Faultless (entries earlier)) ∧
        Reached item (entries source) := by
  induction sources with
  | nil => simp
  | cons first rest inductionHypothesis =>
      rw [List.flatMap_cons, reached_append, inductionHypothesis]
      constructor
      · rintro (reached | ⟨faultless, front, source, back, rfl, earlier,
          reached⟩)
        · exact ⟨[], first, rest, rfl, by simp, reached⟩
        · exact ⟨first :: front, source, back, rfl,
            List.forall_mem_cons.mpr ⟨faultless, earlier⟩, reached⟩
      · rintro ⟨front, source, back, split, earlier, reached⟩
        cases front with
        | nil =>
            cases split
            exact Or.inl reached
        | cons head front =>
            cases split
            rw [List.forall_mem_cons] at earlier
            exact Or.inr ⟨earlier.1, front, source, back, rfl, earlier.2,
              reached⟩

theorem reached_map_range {item : α} {entry : Nat → Except ε α}
    {count : Nat} :
    Reached item ((List.range count).map entry) ↔
      ∃ index < count, entry index = .ok item ∧
        ∀ earlier < index, ∃ value, entry earlier = .ok value := by
  induction count with
  | zero => simp
  | succ count inductionHypothesis =>
      have last : Reached item [entry count] ↔ entry count = .ok item := by
        cases entry count with
        | error fault => simp
        | ok value => simp
      rw [List.range_succ, List.map_append, reached_append,
        inductionHypothesis, List.map_singleton, last]
      constructor
      · rintro (⟨index, bound, given, earlier⟩ | ⟨faultless, given⟩)
        · exact ⟨index, by omega, given, earlier⟩
        · refine ⟨count, by omega, given, ?_⟩
          intro earlier bound
          exact faultless _
            (List.mem_map_of_mem (List.mem_range.mpr bound))
      · rintro ⟨index, bound, given, earlier⟩
        by_cases atLast : index = count
        · subst atLast
          refine Or.inr ⟨?_, given⟩
          intro value member
          obtain ⟨position, inRange, rfl⟩ := List.mem_map.mp member
          exact earlier position (List.mem_range.mp inRange)
        · exact Or.inl ⟨index, by omega, given, earlier⟩

/-- A faultless sequence is the items that it presents. -/
theorem Presents.eq_of_faultless {entries : List (Except ε α)} {items : List α}
    (presents : Presents entries items) (faultless : Faultless entries) :
    entries = items.map .ok := by
  have listed : ∃ good : List α, entries = good.map .ok := by
    induction entries generalizing items with
    | nil => exact ⟨[], rfl⟩
    | cons entry rest inductionHypothesis =>
        obtain ⟨item, rfl⟩ := faultless entry (by simp)
        cases presents with
        | cons _ tailPresents =>
            obtain ⟨good, rfl⟩ :=
              inductionHypothesis tailPresents
                (fun later member => faultless later (by simp [member]))
            exact ⟨item :: good, rfl⟩
  obtain ⟨good, rfl⟩ := listed
  rw [← List.append_nil (good.map _)] at presents
  rw [presents.good_entries.2 rfl]

namespace Produces

variable {next : σ → Except ε (Option α × σ)}
  {pending : σ → List (Except ε α)}

/-- A call that answers an item has taken it from the sequence. -/
theorem next_some
    (produces : Produces next pending)
    {state after : σ} {item : α} (called : next state = .ok (some item, after)) :
    pending state = .ok item :: pending after := by
  cases sequence : pending state with
  | nil =>
      obtain ⟨_, drained, _⟩ := produces.drained state sequence
      rw [drained] at called
      cases called
  | cons entry rest =>
      cases entry with
      | error fault =>
          rw [produces.failing state fault rest sequence] at called
          cases called
      | ok first =>
          obtain ⟨_, yielded, remaining⟩ :=
            produces.yielding state first rest sequence
          rw [yielded] at called
          cases called
          rw [remaining]

/-- Calls that all return consume an initial piece of the sequence; they
answer `none` only once the whole sequence is consumed. -/
theorem takeNext_ok
    (produces : Produces next pending) :
    ∀ {count : Nat} {state final : σ} {answers : List (Option α)},
      takeNext next count state = .ok (answers, final) →
      ∃ items : List α,
        pending state = items.map .ok ++ pending final ∧
        items.length ≤ count ∧
        answers =
          items.map some ++ List.replicate (count - items.length) none ∧
        (items.length < count → pending final = [])
  | 0, state, final, answers, returned => by
      simp only [takeNext, Except.ok.injEq, Prod.mk.injEq] at returned
      obtain ⟨rfl, rfl⟩ := returned
      exact ⟨[], by simp⟩
  | count + 1, state, final, answers, returned => by
      match sequence : pending state with
      | [] =>
          obtain ⟨after, called, empty⟩ := produces.drained state sequence
          simp only [takeNext, called] at returned
          match tailRun : takeNext next count after with
          | .error fault => simp [tailRun] at returned
          | .ok (tailAnswers, tailFinal) =>
              simp only [tailRun, Except.ok.injEq, Prod.mk.injEq] at returned
              obtain ⟨rfl, rfl⟩ := returned
              obtain ⟨items, split, _, answered, _⟩ :=
                takeNext_ok produces tailRun
              rw [empty] at split
              have noItems : items = [] := by
                simpa using (List.append_eq_nil_iff.mp split.symm).1
              have drainedFinal : pending tailFinal = [] :=
                (List.append_eq_nil_iff.mp split.symm).2
              subst items
              refine ⟨[], by simp [drainedFinal], by simp, ?_, fun _ =>
                drainedFinal⟩
              simp [answered, List.replicate_succ]
      | .error fault :: rest =>
          have failed := produces.failing state fault rest sequence
          simp [takeNext, failed] at returned
      | .ok item :: rest =>
          obtain ⟨after, called, remaining⟩ :=
            produces.yielding state item rest sequence
          simp only [takeNext, called] at returned
          match tailRun : takeNext next count after with
          | .error fault => simp [tailRun] at returned
          | .ok (tailAnswers, tailFinal) =>
              simp only [tailRun, Except.ok.injEq, Prod.mk.injEq] at returned
              obtain ⟨rfl, rfl⟩ := returned
              obtain ⟨items, split, bounded, answered, exhausted⟩ :=
                takeNext_ok produces tailRun
              refine ⟨item :: items, ?_, ?_, ?_, ?_⟩
              · rw [← remaining, split]
                rfl
              · simpa using bounded
              · simp [answered]
              · intro short
                exact exhausted (by simpa using short)

/-- The answers of successive calls, as a function of the presented items. -/
theorem takeNext_eq
    (produces : Produces next pending)
    {count : Nat} {state final : σ} {answers : List (Option α)}
    {items : List α} (presents : Presents (pending state) items)
    (returned : takeNext next count state = .ok (answers, final)) :
    answers =
      (items.take count).map some ++
        List.replicate (count - items.length) none := by
  obtain ⟨good, split, bounded, answered, exhausted⟩ :=
    produces.takeNext_ok returned
  rw [split] at presents
  have agreed := presents.good_entries
  by_cases short : good.length < count
  · have all : good = items := agreed.2 (exhausted short)
    subst items
    rw [answered, List.take_of_length_le bounded]
  · have full : good.length = count := by omega
    have taken : items.take count = good := by
      rw [← full]
      exact (List.prefix_iff_eq_take.mp agreed.1).symm
    have covered : count ≤ items.length := by
      rw [← full]
      exact agreed.1.length_le
    rw [answered, taken, full, Nat.sub_self, Nat.sub_eq_zero_of_le covered]

/-- As many calls as there are leading good entries return those entries. -/
theorem takeNext_of_pending
    (produces : Produces next pending) :
    ∀ {items : List α} {state : σ} {rest : List (Except ε α)},
      pending state = items.map .ok ++ rest →
      ∃ final,
        takeNext next items.length state = .ok (items.map some, final) ∧
        pending final = rest
  | [], state, rest, sequence => ⟨state, rfl, by simpa using sequence⟩
  | item :: items, state, rest, sequence => by
      obtain ⟨after, called, remaining⟩ :=
        produces.yielding state item (items.map Except.ok ++ rest)
          (by simpa using sequence)
      obtain ⟨final, tailRun, left⟩ := takeNext_of_pending produces remaining
      exact ⟨final, by simp [takeNext, called, tailRun], left⟩

/-- A producer without failing entries answers any number of calls. -/
theorem takeNext_total
    (produces : Produces next pending) :
    ∀ (count : Nat) (state : σ),
      (∀ entry ∈ pending state, ∃ item, entry = .ok item) →
      ∃ answers final, takeNext next count state = .ok (answers, final)
  | 0, state, _ => ⟨[], state, rfl⟩
  | count + 1, state, faultless => by
      match sequence : pending state with
      | [] =>
          obtain ⟨after, called, empty⟩ := produces.drained state sequence
          obtain ⟨answers, final, tailRun⟩ :=
            takeNext_total produces count after (by simp [empty])
          exact ⟨none :: answers, final, by simp [takeNext, called, tailRun]⟩
      | .error fault :: rest =>
          obtain ⟨item, impossible⟩ :=
            faultless (.error fault) (by simp [sequence])
          cases impossible
      | .ok item :: rest =>
          obtain ⟨after, called, remaining⟩ :=
            produces.yielding state item rest sequence
          obtain ⟨answers, final, tailRun⟩ :=
            takeNext_total produces count after (by
              intro entry member
              rw [remaining] at member
              exact faultless entry (by simp [sequence, member]))
          exact ⟨some item :: answers, final, by
            simp [takeNext, called, tailRun]⟩

/-- An item can be answered exactly when it stands before every fault. -/
theorem mem_takeNext_iff
    (produces : Produces next pending) {state : σ} {item : α} :
    (∃ count answers final,
      takeNext next count state = .ok (answers, final) ∧
        item ∈ itemsOf answers) ↔
      Reached item (pending state) := by
  constructor
  · rintro ⟨count, answers, final, returned, member⟩
    obtain ⟨items, split, _, rfl, _⟩ := produces.takeNext_ok returned
    rw [itemsOf_map_some_append_replicate] at member
    rw [split, reached_append]
    exact Or.inl (reached_map_ok.mpr member)
  · intro reached
    obtain ⟨items, rest, sequence, member⟩ := reached.split
    obtain ⟨final, returned, _⟩ := produces.takeNext_of_pending sequence
    exact ⟨items.length, items.map some, final, returned, by
      simpa [itemsOf] using member⟩

/-- A faultless sequence is answered item by item and then stays drained. -/
theorem takeNext_of_faultless
    (produces : Produces next pending)
    {state : σ} {items : List α}
    (faultless : pending state = items.map .ok) (count : Nat) :
    ∃ final,
      takeNext next count state =
        .ok ((items.take count).map some ++
          List.replicate (count - items.length) none, final) := by
  obtain ⟨answers, final, returned⟩ :=
    produces.takeNext_total count state (by
      intro entry member
      rw [faultless] at member
      obtain ⟨item, _, rfl⟩ := List.mem_map.mp member
      exact ⟨item, rfl⟩)
  have presents : Presents (pending state) items := by
    rw [faultless]
    exact Presents.of_items items
  rw [produces.takeNext_eq presents returned] at returned
  exact ⟨final, returned⟩

/-- Sending every item through a fallible function keeps the presentation
lazy: an item is converted by the call that answers it. -/
theorem convert
    {β : Type w} (produces : Produces next pending)
    (convertItem : α → Except ε β) :
    Produces
      (fun state =>
        match next state with
        | .error fault => .error fault
        | .ok (none, after) => .ok (none, after)
        | .ok (some item, after) =>
            match convertItem item with
            | .error fault => .error fault
            | .ok converted => .ok (some converted, after))
      (fun state => (pending state).map fun entry => entry.bind convertItem)
      where
  drained := by
    intro state empty
    obtain ⟨after, called, drainedAfter⟩ :=
      produces.drained state (List.map_eq_nil_iff.mp empty)
    exact ⟨after, by simp [called], by simp [drainedAfter]⟩
  failing := by
    intro state fault rest sequence
    obtain ⟨entry, tail, split, converted, _⟩ :=
      List.map_eq_cons_iff.mp sequence
    cases entry with
    | error original =>
        have failed := produces.failing state original tail split
        cases converted
        simp [failed]
    | ok item =>
        obtain ⟨after, called, _⟩ := produces.yielding state item tail split
        have refused : convertItem item = .error fault := converted
        simp [called, refused]
  yielding := by
    intro state item rest sequence
    obtain ⟨entry, tail, split, converted, remaining⟩ :=
      List.map_eq_cons_iff.mp sequence
    cases entry with
    | error original => cases converted
    | ok original =>
        obtain ⟨after, called, left⟩ :=
          produces.yielding state original tail split
        have accepted : convertItem original = .ok item := converted
        exact ⟨after, by simp [called, accepted], by simp [left, remaining]⟩

/-- A producer embedded in a larger state presents the same sequence. -/
theorem focus
    {τ : Type u} (produces : Produces next pending)
    (view : τ → σ) (update : τ → σ → τ)
    (view_update : ∀ outer inner, view (update outer inner) = inner) :
    Produces
      (fun outer =>
        match next (view outer) with
        | .error fault => .error fault
        | .ok (answer, after) => .ok (answer, update outer after))
      (fun outer => pending (view outer)) where
  drained := by
    intro outer empty
    obtain ⟨after, called, drainedAfter⟩ := produces.drained _ empty
    exact ⟨update outer after, by simp [called], by
      simpa [view_update] using drainedAfter⟩
  failing := by
    intro outer fault rest sequence
    simp [produces.failing _ fault rest sequence]
  yielding := by
    intro outer item rest sequence
    obtain ⟨after, called, left⟩ := produces.yielding _ item rest sequence
    exact ⟨update outer after, by simp [called], by
      simpa [view_update] using left⟩

end Produces

end RustKernel.Foundations
