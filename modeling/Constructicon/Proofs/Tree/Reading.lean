import Constructicon.Proofs.Tree.Cover
import Constructicon.Proofs.Session.History

/-! Trees read back from the log of a session. Following causes from a completion leads through
firings that end where the next one begins, down to the first element of the instance; each is a
token or stands for a completion recorded earlier, whose tree is there already. So every completion
has a tree, and the tree covers its span with the tokens that were consumed. -/
namespace Constructicon

/-- What a completion recognised. -/
def Event.span (completion : Event) : Span :=
  { pattern := completion.pattern, start := completion.start, finish := completion.time
    event := completion.id }

/-- A tree covers its span and is older than its completion. -/
def Recognition.Covers (log : List Event) (tokens : List Token) (recognition : Recognition) : Prop :=
  Constructicon.Covers log tokens recognition.span.event recognition.span.start
    (recognition.span.finish + 1) recognition.children

section Reading

variable {network : Network} {mode : Mode} {tokens : List Token} {log : List Event}

theorem mem_of_lookup {id : Nat} {event : Event} (stored : Log.lookup log id = some event) :
    event ∈ log ∧ event.id = id := by
  obtain ⟨present, same⟩ := List.mem_filter.mp (List.mem_of_getLast? stored)
  exact ⟨present, of_decide_eq_true same⟩

theorem lookup_eq (sound : SoundLog network mode tokens log) {id : Nat} {event : Event}
    (recorded : log[id]? = some event) : Log.lookup log id = some event := by
  cases stored : Log.lookup log id with
  | none =>
    have found : event ∈ log.filter (·.id = id) := by
      refine List.mem_filter.mpr ⟨List.mem_of_getElem? recorded, ?_⟩
      simpa using (sound id event recorded).id
    rw [List.getLast?_eq_none_iff.mp stored] at found
    cases found
  | some other =>
    obtain ⟨present, same⟩ := mem_of_lookup stored
    obtain ⟨position, here⟩ := List.mem_iff_getElem?.mp present
    have at' := (sound position other here).id
    rw [← at', same, recorded] at here
    exact here.symm

theorem chain_start (bound : Nat) : Log.chain log bound none = some [] := by
  cases bound <;> rfl

theorem chain_step {bound id : Nat} {fire : Event} (found : Log.lookup log id = some fire) :
    Log.chain log (bound + 1) (some id) =
      (Log.chain log bound fire.cause).map (· ++ [fire]) := by
  rw [Log.chain.eq_def]
  simp only [Option.bind_some, found]

/-- The trees of the completions among the first `count` events. -/
structure ReadUpTo (log : List Event) (tokens : List Token) (count : Nat)
    (recognitions : List Recognition) : Prop where
  spans : recognitions.map (·.span) =
    ((log.take count).filter (·.kind = .complete)).map Event.span
  covers : ∀ recognition ∈ recognitions, recognition.Covers log tokens

/-- Ids are positions, so a tree is known by the id of its completion. -/
theorem ReadUpTo.span_eq {count id : Nat} {earlier : List Recognition} {completion : Event}
    (sound : SoundLog network mode tokens log) (read : ReadUpTo log tokens count earlier)
    (recorded : log[id]? = some completion) {recognition : Recognition}
    (present : recognition ∈ earlier) (named : recognition.span.event = id) :
    recognition.span = completion.span := by
  have spanned := read.spans ▸ List.mem_map_of_mem (f := Recognition.span) present
  obtain ⟨event, member, same⟩ := List.mem_map.mp spanned
  obtain ⟨position, found⟩ :=
    List.mem_iff_getElem?.mp (List.mem_of_mem_take (List.mem_filter.mp member).1)
  have at' : event.id = position := (sound position event found).id
  have known : event.id = id := (congrArg Span.event same).trans named
  rw [← at', known, recorded] at found
  cases found
  exact same.symm

theorem ReadUpTo.withEvent {count id : Nat} {earlier : List Recognition} {completion : Event}
    (sound : SoundLog network mode tokens log) (read : ReadUpTo log tokens count earlier)
    (before : id < count) (recorded : log[id]? = some completion)
    (completed : completion.kind = .complete) : ∃ recognition,
      Recognition.withEvent earlier id = some recognition ∧ recognition.span = completion.span ∧
        recognition.Covers log tokens := by
  have taken : completion ∈ (log.take count).filter (·.kind = .complete) := by
    refine List.mem_filter.mpr ⟨List.mem_of_getElem? (i := id) ?_, by simpa using completed⟩
    rw [List.getElem?_take_of_lt before]
    exact recorded
  have spanned := read.spans ▸ List.mem_map_of_mem (f := Event.span) taken
  obtain ⟨recognition, present, same⟩ := List.mem_map.mp spanned
  have found : recognition ∈ earlier.filter (·.span.event = id) := by
    refine List.mem_filter.mpr ⟨present, ?_⟩
    simpa [same, Event.span] using (sound id completion recorded).id
  unfold Recognition.withEvent
  cases last : (earlier.filter (·.span.event = id)).getLast? with
  | none =>
    rw [List.getLast?_eq_none_iff.mp last] at found
    cases found
  | some other =>
    obtain ⟨here, named⟩ := List.mem_filter.mp (List.mem_of_getLast? last)
    have same := read.span_eq sound recorded here (of_decide_eq_true named)
    exact ⟨other, rfl, same, read.covers other here⟩

theorem child_covers {count id : Nat} {earlier : List Recognition} {fire : Event}
    (sound : SoundLog network mode tokens log) (read : ReadUpTo log tokens count earlier)
    (before : id < count) (recorded : log[id]? = some fire) (fired : fire.kind = .fire) :
    ∃ node position, fire.Awaited network log node position ∧ position ≤ fire.time ∧
      Covers log tokens id position (fire.time + 1) [Recognition.child earlier fire] := by
  have event := sound id fire recorded
  have same := event.id
  cases event.grounded with
  | @token node site token _ sub _ _ awaited current elementType value =>
    refine ⟨node, fire.time, awaited, Nat.le_refl _, ?_⟩
    simp only [Recognition.child, sub, Option.bind_none]
    exact .terminal rfl (by simp [elementType, value, current])
  | @reference node consumed _ sub _ consumes _ _ found older completed together awaited =>
    obtain ⟨recognition, known, spans, covers⟩ :=
      read.withEvent sound (by omega) found completed
    have inner := sound consumed sub found
    have ordered := inner.spans
    refine ⟨node, sub.start, awaited, by omega, ?_⟩
    simp only [Recognition.child, consumes, Option.bind_some, known]
    have start : recognition.span.start = sub.start := by rw [spans]; rfl
    have finish : recognition.span.finish = sub.time := by rw [spans]; rfl
    have named : recognition.span.event = consumed := by rw [spans]; exact inner.id
    rw [← together, ← start, ← finish]
    refine covers.construction (named.symm ▸ found) start.symm finish.symm ?_ ?_
    · omega
    · omega
  | completion kind => rw [fired] at kind; cases kind

/-- The chain of causes of a firing covers the instance so far. -/
theorem chain_covers {count : Nat} {earlier : List Recognition}
    (sound : SoundLog network mode tokens log) (read : ReadUpTo log tokens count earlier)
    (id : Nat) {bound : Nat} {fire : Event} (before : id < count) (enough : id < bound)
    (recorded : log[id]? = some fire) (fired : fire.kind = .fire) : ∃ fires,
      Log.chain log bound (some id) = some fires ∧
        Covers log tokens id fire.start (fire.time + 1) (fires.map (Recognition.child earlier)) := by
  induction id using Nat.strongRecOn generalizing bound fire with
  | ind id ih =>
    obtain ⟨node, position, awaited, _, covers⟩ := child_covers sound read before recorded fired
    obtain ⟨bound, rfl⟩ : ∃ n, bound = n + 1 := ⟨bound - 1, by omega⟩
    rw [chain_step (lookup_eq sound recorded)]
    cases awaited with
    | entry cause start =>
      rw [cause, chain_start]
      exact ⟨[fire], rfl, start ▸ covers⟩
    | @after cause _ previous caused found older fired' _ start adjacent =>
      have same := (sound id fire recorded).id
      have smaller : cause < bound := by omega
      obtain ⟨fires, chained, row⟩ := ih cause (by omega) (by omega) smaller found fired'
      rw [caused, chained]
      refine ⟨fires ++ [fire], rfl, ?_⟩
      rw [List.map_append, ← start]
      rw [adjacent] at row
      exact (row.mono (by omega)).append covers

theorem assemble_covers {count id : Nat} {earlier : List Recognition} {completion : Event}
    (sound : SoundLog network mode tokens log) (read : ReadUpTo log tokens count earlier)
    (before : id ≤ count) (recorded : log[id]? = some completion)
    (completed : completion.kind = .complete) : ∃ recognition,
      Recognition.assemble log earlier completion = some recognition ∧
        recognition.span = completion.span ∧ recognition.Covers log tokens := by
  have event := sound id completion recorded
  have same := event.id
  cases event.grounded with
  | token kind => rw [completed] at kind; cases kind
  | reference kind => rw [completed] at kind; cases kind
  | @completion cause _ previous _ _ _ _ _ _ _ caused found older fired _ start together =>
    have bound := (List.getElem?_eq_some_iff.mp found).1
    obtain ⟨fires, chained, row⟩ := chain_covers sound read cause (by omega) bound found fired
    refine ⟨⟨completion.span, fires.map (Recognition.child earlier)⟩, ?_, rfl, ?_⟩
    · rw [Recognition.assemble, caused, chained]
      rfl
    · rw [start, together] at row
      exact row.mono (Nat.le_of_lt older)

theorem readUpTo (sound : SoundLog network mode tokens log) (count : Nat) : ∃ recognitions,
    ((log.take count).filter (·.kind = .complete)).foldlM (fun earlier completion =>
      (Recognition.assemble log earlier completion).map fun tree => earlier ++ [tree]) [] =
        some recognitions ∧ ReadUpTo log tokens count recognitions := by
  induction count with
  | zero => exact ⟨[], by simp, by simp, by simp⟩
  | succ count ih =>
    obtain ⟨recognitions, folded, read⟩ := ih
    cases here : log[count]? with
    | none =>
      have beyond := List.getElem?_eq_none_iff.mp here
      have same : log.take (count + 1) = log.take count := by
        rw [List.take_of_length_le beyond, List.take_of_length_le (Nat.le_succ_of_le beyond)]
      exact ⟨recognitions, same ▸ folded, same ▸ read.spans, read.covers⟩
    | some event =>
      have taken : log.take (count + 1) = log.take count ++ [event] := by
        rw [List.take_add_one, here]
        rfl
      cases kind : event.kind with
      | fire =>
        have none : [event].filter (·.kind = .complete) = [] := by simp [kind]
        refine ⟨recognitions, ?_, ?_, read.covers⟩
        · rw [taken, List.filter_append, none, List.append_nil]
          exact folded
        · rw [taken, List.filter_append, none, List.append_nil]
          exact read.spans
      | complete =>
        have one : [event].filter (·.kind = .complete) = [event] := by simp [kind]
        obtain ⟨recognition, assembled, spans, covers⟩ :=
          assemble_covers sound read (Nat.le_refl _) here kind
        refine ⟨recognitions ++ [recognition], ?_, ?_, ?_⟩
        · rw [taken, List.filter_append, one, List.foldlM_append, folded]
          simp [assembled]
        · rw [taken, List.filter_append, one, List.map_append, List.map_append, read.spans,
            List.map_singleton, List.map_singleton, spans]
        · intro other member
          rcases List.mem_append.mp member with old | new
          · exact read.covers other old
          · rw [List.mem_singleton.mp new]
            exact covers

end Reading

/-- A tree over `tokens` reads back exactly those of its span, and holds no completion twice. -/
structure Recognition.ReadsBack (tokens : List Token) (recognition : Recognition) : Prop where
  begins : 1 ≤ recognition.span.start
  ordered : recognition.span.start ≤ recognition.span.finish
  positions : recognition.terminals.map (·.position) = List.range' recognition.span.start
    (recognition.span.finish + 1 - recognition.span.start)
  tokens : ∀ leaf ∈ recognition.terminals,
    tokens[leaf.position - 1]? = some ⟨leaf.elementType, leaf.elementValue⟩
  length : recognition.span.finish < UInt64.size →
    recognition.span.length = recognition.terminals.length
  tiles : Tree.Tiles recognition.span.start (recognition.span.finish + 1) recognition.children
  descending : recognition.tree.Descending
  distinct : recognition.descendants.Nodup

theorem Recognition.Covers.readsBack {log : List Event} {tokens : List Token}
    {recognition : Recognition} (covers : recognition.Covers log tokens)
    (begins : 1 ≤ recognition.span.start)
    (ordered : recognition.span.start ≤ recognition.span.finish) :
    recognition.ReadsBack tokens where
  begins := begins
  ordered := ordered
  positions := covers.positions
  tokens := covers.tokens
  length bounded := by
    have count := congrArg List.length covers.positions
    rw [List.length_map, List.length_range'] at count
    rw [Span.length_eq (by omega) (by omega), ← count]
    rfl
  tiles := covers.tiles
  descending := covers.descending_construction
  distinct := covers.distinct

/-- At every point of every course, aborted or not, each completion of the log has its tree, in
log order, and the tree reads back the tokens that were consumed. -/
theorem Course.trees_readBack {course : Course} (reached : course.Reached Opening Session.sweepUnified) :
    ∃ recognitions, Recognition.ofLog course.session.events = some recognitions ∧
      recognitions.map (·.span) =
        (course.session.events.filter (·.kind = .complete)).map Event.span ∧
      ∀ recognition ∈ recognitions, recognition.ReadsBack course.tokens := by
  obtain ⟨sound, _⟩ := reached.sound (fun _ opening => opening.starts) Session.dropping_sweepUnified
  have log : SoundLog course.session.network course.session.mode course.tokens
      course.session.events := sound.log
  obtain ⟨recognitions, folded, read⟩ := readUpTo log course.session.events.length
  rw [List.take_length] at folded
  have spans := read.spans
  rw [List.take_length] at spans
  refine ⟨recognitions, folded, spans, fun recognition member => ?_⟩
  have spanned := spans ▸ List.mem_map_of_mem member
  obtain ⟨completion, present, same⟩ := List.mem_map.mp spanned
  obtain ⟨position, found⟩ := List.mem_iff_getElem?.mp (List.mem_filter.mp present).1
  have event := log position completion found
  exact (read.covers recognition member).readsBack (same ▸ event.begins) (same ▸ event.spans)

/-- Seven trees over three numbers. The last two cover all three, and differ in what is nested. -/
theorem Course.trees_readBack_sums :
    let course := sumsCourse {} numbers
    let one : Terminal := ⟨"N", "1", 1, "number"⟩
    let two : Terminal := ⟨"N", "2", 2, "number"⟩
    let three : Terminal := ⟨"N", "3", 3, "number"⟩
    ((Recognition.ofLog course.session.events).map fun recognitions =>
      recognitions.map fun recognition =>
        (recognition.span, recognition.terminals, recognition.descendants)) =
        some [(⟨"sum", 1, 1, 1⟩, [one], []), (⟨"sum", 2, 2, 4⟩, [two], []),
          (⟨"sum", 1, 2, 7⟩, [one, two], [1, 4]), (⟨"sum", 3, 3, 10⟩, [three], []),
          (⟨"sum", 2, 3, 14⟩, [two, three], [4, 10]),
          (⟨"sum", 1, 3, 17⟩, [one, two, three], [7, 10, 1, 4]),
          (⟨"sum", 1, 3, 19⟩, [one, two, three], [1, 14, 4, 10])] ∧
      ∃ recognitions, Recognition.ofLog course.session.events = some recognitions ∧
      recognitions.map (·.span) =
        (course.session.events.filter (·.kind = .complete)).map Event.span ∧
      ∀ recognition ∈ recognitions, recognition.ReadsBack course.tokens :=
  ⟨by decide +kernel, Course.trees_readBack
    (sumsCourse_reached _ numbers (.unified (.composed (.grammar sums_network))))⟩

end Constructicon
