import Hiview.EventService.DataPublisher
import Hiview.Lib.Transition

/-! Whether the subscriptions in memory are those that `InitSubscriber` would read from the
table. A call changes the memory before it writes to the table, and the row it replaces is
looked up again before. -/
namespace Hiview.EventService
open DataShareDao EventStore List

/-- An event name that a list of names can hold. -/
structure SubscribedEvent where
  text : List UInt8
  nonempty : text ≠ []
  unsplit : eventSplit ∉ text
  front : text.head? ≠ some 32
  back : text.getLast? ≠ some 32

inductive SubscriberCall where
  | add (uid : Int) (events : List SubscribedEvent) (answers : DbAnswers)
  | remove (uid : Int) (answers : DbAnswers)

theorem convertVectorToStr_cons (nonempty : first ≠ []) (rest : List (List UInt8)) (split : UInt8) :
    convertVectorToStr (first :: rest) split = first ++ rest.flatMap (split :: ·) := by
  have appended : ∀ str : List UInt8, str ≠ [] →
      rest.foldl (fun str item => if str = [] then item else str ++ split :: item) str =
        str ++ rest.flatMap (split :: ·) := by
    induction rest with
    | nil => simp
    | cons item rest ih =>
      intro str filled
      rw [foldl_cons, if_neg filled, ih _ (by simp), flatMap_cons, append_assoc]
  rw [convertVectorToStr, foldl_cons, if_pos rfl, appended first nonempty]

theorem getLast?_joined {rest : List SubscribedEvent} (back : first.getLast? ≠ some 32) (split : UInt8) :
    (first ++ (rest.map (·.text)).flatMap (split :: ·)).getLast? ≠ some 32 := by
  induction rest generalizing first with
  | nil => simpa using back
  | cons event rest ih =>
    have longer : (first ++ split :: event.text).getLast? = event.text.getLast? := by
      rw [append_cons, List.getLast?_append_of_ne_nil _ event.nonempty]
    have last := ih (longer ▸ event.back)
    rwa [append_assoc] at last

theorem splitStr_convertVectorToStr (events : List SubscribedEvent) :
    splitStr (convertVectorToStr (events.map (·.text)) eventSplit) eventSplit =
      events.map (·.text) := by
  cases events with
  | nil => rfl
  | cons first rest =>
    have front : (first.text ++ (rest.map (·.text)).flatMap (eventSplit :: ·)).head? ≠ some 32 := by
      rw [List.head?_append_of_ne_nil _ first.nonempty]
      exact first.front
    have absent : ∀ part ∈ first.text :: rest.map (·.text), eventSplit ∉ part := by
      intro part member
      rw [← map_cons] at member
      obtain ⟨event, -, rfl⟩ := mem_map.mp member
      exact event.unsplit
    have trimmed : ((first :: rest).map (·.text)).map Text.trim = (first :: rest).map (·.text) := by
      rw [map_map]
      exact map_congr_left fun event _ => Text.trim_of_ends event.front event.back
    have filled : ((first :: rest).map (·.text)).filter (· ≠ []) = (first :: rest).map (·.text) := by
      refine filter_eq_self.mpr fun part member => ?_
      obtain ⟨event, -, rfl⟩ := mem_map.mp member
      exact decide_eq_true event.nonempty
    rw [map_cons, convertVectorToStr_cons first.nonempty, splitStr,
      Text.trim_of_ends front (getLast?_joined first.back _), Text.splitOn_joined absent, ← map_cons,
      trimmed, filled]

namespace DataPublisher

def storedEvents (rows : List SubscriberRow) (uid : Int) : List (List UInt8) :=
  EventStore.splitStr ((DataShareDao.stored rows uid).getD []) eventSplit

variable {event : List UInt8}

theorem mem_insertUid :
    (event, other) ∈ insertUid relation uid events ↔ (event, other) ∈ relation ∨ (other = uid ∧ event ∈ events) := by
  rw [insertUid]
  induction events generalizing relation with
  | nil => simp
  | cons first rest ih =>
    rw [foldl_cons, ih, Finset.mem_insert, Prod.mk.injEq, mem_cons]
    tauto

theorem mem_eraseUid :
    (event, other) ∈ eraseUid relation uid events ↔ (event, other) ∈ relation ∧ ¬ (other = uid ∧ event ∈ events) := by
  rw [eraseUid]
  induction events generalizing relation with
  | nil => simp
  | cons first rest ih =>
    rw [foldl_cons, ih, Finset.mem_erase, ne_eq, Prod.mk.injEq, mem_cons]
    tauto

theorem mem_getTotalSubscriberInfo {rows : List SubscriberRow} {row : SubscriberRow} :
    row ∈ getTotalSubscriberInfo rows ↔ rows.find? (·.uid = row.uid) = some row := by
  induction rows with
  | nil => simp [getTotalSubscriberInfo]
  | cons first rest ih =>
    rw [getTotalSubscriberInfo, mem_cons, mem_filter, ih, List.find?_cons]
    by_cases same : first.uid = row.uid
    · simp [same, eq_comm]
    · have other : row ≠ first := fun equal => same (congrArg (·.uid) equal.symm)
      simp [same, other, Ne.symm same]

theorem mem_initSubscriber {rows : List SubscriberRow} {uid : Int} :
    (event, uid) ∈ initSubscriber rows ↔ event ∈ storedEvents rows uid := by
  have folded : ∀ (total : List SubscriberRow) (relation : Finset (List UInt8 × Int)),
      (event, uid) ∈ total.foldl (fun relation row =>
          insertUid relation row.uid (splitStr row.events eventSplit)) relation ↔
        (event, uid) ∈ relation ∨
          ∃ row ∈ total, row.uid = uid ∧ event ∈ splitStr row.events eventSplit := by
    intro total
    induction total with
    | nil => simp
    | cons first rest ih =>
      intro relation
      rw [foldl_cons, ih, mem_insertUid, exists_mem_cons_iff, or_assoc, eq_comm]
  rw [initSubscriber, folded, storedEvents, stored]
  constructor
  · rintro (none | ⟨row, total, rfl, found⟩)
    · exact absurd none (Finset.notMem_empty _)
    · rw [mem_getTotalSubscriberInfo.mp total]
      exact found
  · intro found
    cases first : rows.find? (·.uid = uid) with
    | none =>
      rw [first] at found
      cases found
    | some row =>
      have same : row.uid = uid := by simpa using List.find?_some first
      rw [first] at found
      subst same
      exact .inr ⟨row, mem_getTotalSubscriberInfo.mpr first, rfl, found⟩

/-- The memory is what would be read from the table. -/
def Agrees (publisher : DataPublisher) : Prop :=
  publisher.eventRelationMap = initSubscriber publisher.rows

variable {publisher : DataPublisher}

theorem agrees_iff :
    publisher.Agrees ↔ ∀ event uid,
      (event, uid) ∈ publisher.eventRelationMap ↔ event ∈ storedEvents publisher.rows uid := by
  rw [Agrees, Finset.ext_iff, Prod.forall]
  exact forall₂_congr fun event uid => by rw [mem_initSubscriber]

/-- `SaveSubscriberInfo` changes the row that is read: it writes, and it does not add a
second row for the uid. -/
def Stores (rows : List SubscriberRow) (uid : Int) (answers : DbAnswers) : Prop :=
  answers.write = true ∧ (answers.count = true ∨ ∀ row ∈ rows, row.uid ≠ uid)

instance (rows : List SubscriberRow) (uid : Int) (answers : DbAnswers) : Decidable (Stores rows uid answers) :=
  inferInstanceAs (Decidable (_ ∧ _))

theorem stored_cons (row : SubscriberRow) (rows : List SubscriberRow) (uid : Int) :
    stored (row :: rows) uid =
      if row.uid = uid then some row.events else stored rows uid := by
  by_cases same : row.uid = uid <;> simp [same, stored]

theorem stored_eq_none {rows : List SubscriberRow} {uid : Int} :
    stored rows uid = none ↔ ∀ row ∈ rows, row.uid ≠ uid := by
  simp [stored]

variable (rows : List SubscriberRow) (uid : Int) (events : List UInt8) (other : Int)

theorem stored_update :
    stored (rows.map fun row => if row.uid = uid then ⟨uid, events⟩ else row) other =
      (stored rows other).map fun old => if other = uid then events else old := by
  induction rows with
  | nil => rfl
  | cons first rest ih =>
    rw [map_cons, stored_cons, stored_cons, ih]
    by_cases own : first.uid = uid
    · by_cases wanted : uid = other <;> simp [own, wanted]
    · by_cases wanted : first.uid = other
      · have apart : ¬ other = uid := fun same => own (wanted.trans same)
        simp [wanted, apart]
      · simp [own, wanted]

theorem stored_insert :
    stored (rows ++ [⟨uid, events⟩]) other =
      (stored rows other).or (if other = uid then some events else none) := by
  induction rows with
  | nil => simp [stored, eq_comm]
  | cons first rest ih =>
    rw [cons_append, stored_cons, stored_cons, ih]
    split <;> rfl

theorem stored_delete :
    stored (rows.filter (·.uid ≠ uid)) other =
      if other = uid then none else stored rows other := by
  induction rows with
  | nil => simp [stored]
  | cons first rest ih =>
    rw [filter_cons, stored_cons]
    by_cases own : first.uid = uid
    · by_cases wanted : other = uid
      · simpa [own, wanted] using ih
      · have apart : ¬ uid = other := fun same => wanted same.symm
        simpa [own, wanted, apart] using ih
    · by_cases wanted : first.uid = other
      · have apart : ¬ other = uid := fun same => own (wanted.trans same)
        simp [apart, stored_cons, wanted]
      · simpa [own, wanted, stored_cons] using ih

theorem storedEvents_update {rows : List SubscriberRow} {uid : Int} (found : ∃ row ∈ rows, row.uid = uid)
    (events : List UInt8) (other : Int) :
    storedEvents (rows.map fun row => if row.uid = uid then ⟨uid, events⟩ else row) other =
      if other = uid then splitStr events eventSplit else storedEvents rows other := by
  rw [storedEvents, stored_update]
  split
  · case isTrue own =>
    cases stored : stored rows other with
    | none =>
      obtain ⟨row, member, same⟩ := found
      exact absurd (same.trans own.symm) (stored_eq_none.mp stored row member)
    | some old => rfl
  · rw [Option.map_id', storedEvents]

theorem storedEvents_insert :
    storedEvents (rows ++ [⟨uid, events⟩]) other =
      if other = uid ∧ ∀ row ∈ rows, row.uid ≠ uid then splitStr events eventSplit
      else storedEvents rows other := by
  rw [storedEvents, stored_insert, storedEvents]
  by_cases own : other = uid
  · subst own
    rw [if_pos rfl]
    by_cases missing : ∀ row ∈ rows, row.uid ≠ other
    · rw [if_pos ⟨rfl, missing⟩, stored_eq_none.mpr missing]
      rfl
    · rw [if_neg fun both => missing both.2]
      cases stored : stored rows other with
      | none => exact absurd (stored_eq_none.mp stored) missing
      | some old => rfl
  · simp [own]

theorem storedEvents_save (events : List SubscribedEvent) (answers : DbAnswers) (other : Int) :
    storedEvents (saveSubscriberInfo rows uid
        (convertVectorToStr (events.map (·.text)) eventSplit) answers).2 other =
      if other = uid ∧ Stores rows uid answers then events.map (·.text) else storedEvents rows other := by
  have names := splitStr_convertVectorToStr events
  rw [saveSubscriberInfo]
  by_cases written : answers.write = true
  · by_cases counted : isUidExists rows uid answers.count = true
    · have both := counted
      simp only [isUidExists, Bool.and_eq_true, any_eq_true, decide_eq_true_eq] at both
      rw [if_pos counted, if_pos written, storedEvents_update both.2, names]
      simp [Stores, written, both.1]
    · have missing : Stores rows uid answers ↔ ∀ row ∈ rows, row.uid ≠ uid := by
        have either := counted
        simp only [isUidExists, Bool.and_eq_true, any_eq_true, decide_eq_true_eq, not_and,
          not_exists] at either
        simp only [Stores, written, true_and]
        exact ⟨fun stores => stores.elim either id, .inr⟩
      rw [if_neg counted, if_pos written, storedEvents_insert, names]
      simp only [missing]
  · have kept : ¬ Stores rows uid answers := fun stores => written stores.1
    simp only [written, Bool.false_eq_true, if_false, kept, and_false]
    split <;> rfl

theorem storedEvents_delete :
    storedEvents (rows.filter (·.uid ≠ uid)) other = if other = uid then [] else storedEvents rows other := by
  rw [storedEvents, stored_delete]
  split <;> rfl

def call (publisher : DataPublisher) : SubscriberCall → Int × DataPublisher
  | .add uid events answers => publisher.addSubscriber uid (events.map (·.text)) answers
  | .remove uid answers => publisher.removeSubscriber uid answers

def step (publisher : DataPublisher) (label : SubscriberCall) : Option DataPublisher :=
  some (publisher.call label).2

/-- The answers with which a call leaves memory and table alike. -/
def Guard (publisher : DataPublisher) : SubscriberCall → Prop
  | .add uid events answers =>
    let old := storedEvents publisher.rows uid
    let new := events.map (·.text)
    match answers.query with
    | .failed => True
    | .read => Stores publisher.rows uid answers ∨ ∀ event, event ∈ new ↔ event ∈ old
    | .unread => if Stores publisher.rows uid answers then old ⊆ new else new ⊆ old
  | .remove uid answers =>
    answers.query = .read → answers.write = true ∨ storedEvents publisher.rows uid = []

section
variable (agrees : publisher.Agrees)
include agrees

theorem mem_added {uid other : Int} {old new : List (List UInt8)} :
    (event, other) ∈ insertUid (eraseUid publisher.eventRelationMap uid old) uid new ↔
      if other = uid then event ∈ new ∨ (event ∈ storedEvents publisher.rows uid ∧ event ∉ old)
      else event ∈ storedEvents publisher.rows other := by
  rw [mem_insertUid, mem_eraseUid, agrees_iff.mp agrees]
  by_cases own : other = uid
  · simp only [own, true_and, if_true]
    tauto
  · simp [own]

variable (uid : Int)

theorem added_agrees_iff (old : List (List UInt8)) (events : List SubscribedEvent) (answers : DbAnswers) :
    Agrees ⟨insertUid (eraseUid publisher.eventRelationMap uid old) uid (events.map (·.text)),
        (saveSubscriberInfo publisher.rows uid
          (convertVectorToStr (events.map (·.text)) eventSplit) answers).2⟩ ↔
      ∀ event, event ∈ events.map (·.text) ∨ (event ∈ storedEvents publisher.rows uid ∧ event ∉ old) ↔
        event ∈ if Stores publisher.rows uid answers then events.map (·.text)
          else storedEvents publisher.rows uid := by
  rw [agrees_iff]
  simp only [mem_added agrees, storedEvents_save]
  constructor
  · intro same event
    simpa using same event uid
  · intro same event other
    by_cases own : other = uid
    · simpa [own] using same event
    · simp [own]

theorem add_agrees_iff (events : List SubscribedEvent) (answers : DbAnswers) :
    (publisher.addSubscriber uid (events.map (·.text)) answers).2.Agrees ↔
      publisher.Guard (.add uid events answers) := by
  have result : ∀ old : List UInt8,
      getEventListByUid publisher.rows uid answers.query = some old →
      (publisher.addSubscriber uid (events.map (·.text)) answers).2 =
        ⟨insertUid (eraseUid publisher.eventRelationMap uid (splitStr old eventSplit)) uid
            (events.map (·.text)),
          (saveSubscriberInfo publisher.rows uid
            (convertVectorToStr (events.map (·.text)) eventSplit) answers).2⟩ := by
    intro old asked
    simp only [addSubscriber, asked]
    split <;> rfl
  simp only [Guard]
  cases query : answers.query with
  | failed => simpa [addSubscriber, query, getEventListByUid] using agrees
  | read =>
    rw [result _ (by rw [query]; rfl), added_agrees_iff agrees]
    change (∀ event, _ ∨ (event ∈ storedEvents publisher.rows uid ∧
      event ∉ storedEvents publisher.rows uid) ↔ _) ↔ _
    by_cases stores : Stores publisher.rows uid answers <;> simp [stores]
  | unread =>
    have nothing : splitStr [] eventSplit = [] := rfl
    rw [result _ (by rw [query]; rfl), added_agrees_iff agrees, nothing]
    by_cases stores : Stores publisher.rows uid answers
    · simp only [stores, if_true, not_mem_nil, not_false_eq_true, and_true, or_iff_left_iff_imp]
      rfl
    · simp only [stores, if_false, not_mem_nil, not_false_eq_true, and_true, or_iff_right_iff_imp]
      rfl

theorem mem_removed {uid other : Int} :
    (event, other) ∈ eraseUid publisher.eventRelationMap uid (storedEvents publisher.rows uid) ↔
      event ∈ if other = uid then [] else storedEvents publisher.rows other := by
  rw [mem_eraseUid, agrees_iff.mp agrees]
  by_cases own : other = uid <;> simp [own]

theorem remove_agrees_iff (answers : DbAnswers) :
    (publisher.removeSubscriber uid answers).2.Agrees ↔ publisher.Guard (.remove uid answers) := by
  simp only [Guard]
  cases query : answers.query with
  | failed | unread => simpa [removeSubscriber, query, getEventListByUid] using agrees
  | read =>
    have asked : getEventListByUid publisher.rows uid answers.query =
      some ((stored publisher.rows uid).getD []) := by rw [query]; rfl
    by_cases empty : (stored publisher.rows uid).getD [] = []
    · have none : storedEvents publisher.rows uid = [] := by rw [storedEvents, empty]; rfl
      simpa [removeSubscriber, asked, empty, none] using agrees
    · have result : (publisher.removeSubscriber uid answers).2 =
          ⟨eraseUid publisher.eventRelationMap uid (storedEvents publisher.rows uid),
            (deleteSubscriberInfo publisher.rows uid answers.write).2⟩ := by
        simp only [removeSubscriber, asked, empty, if_false]
        split <;> rfl
      rw [result, agrees_iff]
      simp only [mem_removed agrees, deleteSubscriberInfo, forall_const]
      by_cases written : answers.write = true
      · simp only [written, if_true, true_or, iff_true]
        intro event other
        rw [storedEvents_delete]
      · simp only [written, Bool.false_eq_true, if_false, false_or]
        constructor
        · intro same
          refine eq_nil_iff_forall_not_mem.mpr fun event member => ?_
          simpa using (same event uid).mpr member
        · intro none event other
          by_cases own : other = uid <;> simp [own, none]

end

theorem failed_rows (failed : (publisher.call label).1 ≠ ipcCallSucceed) :
    (publisher.call label).2.rows = publisher.rows := by
  cases label with
  | add uid events answers =>
    simp only [call, addSubscriber] at failed ⊢
    split
    · rfl
    · case h_2 found =>
      simp only [found, saveSubscriberInfo] at failed ⊢
      by_cases written : answers.write = true
      · split at failed <;> simp [dbSucc] at failed
      · split <;> simp [dbFailed, dbSucc]
  | remove uid answers =>
    simp only [call, removeSubscriber] at failed ⊢
    split
    · rfl
    · case h_2 found =>
      simp only [found, deleteSubscriberInfo] at failed ⊢
      split
      · rfl
      · case isFalse filled =>
        by_cases written : answers.write = true
        · simp [filled, written, dbSucc] at failed
        · simp [written, dbFailed, dbSucc]

theorem guard_iff (agrees : publisher.Agrees) (label : SubscriberCall) :
    publisher.Guard label ↔ ∀ next, publisher.step label = some next → next.Agrees := by
  simp only [step, Option.some.injEq, forall_eq']
  cases label with
  | add uid events answers => exact (add_agrees_iff agrees uid events answers).symm
  | remove uid answers => exact (remove_agrees_iff agrees uid answers).symm

theorem subscriptions_agree_iff_guarded (rows : List SubscriberRow) (labels : List SubscriberCall) :
    (∀ taken rest publisher, labels = taken ++ rest →
        Transition.run step ⟨initSubscriber rows, rows⟩ taken = some publisher →
        publisher.Agrees ∧ ∀ label ∈ rest.head?, (publisher.call label).1 ≠ ipcCallSucceed →
          (publisher.call label).2 = publisher) ↔
      Transition.Guarded step Guard ⟨initSubscriber rows, rows⟩ labels := by
  have start : Agrees ⟨initSubscriber rows, rows⟩ := rfl
  rw [Transition.guarded_iff (fun agrees => guard_iff agrees _) (fun _ _ agrees => agrees) id start]
  refine ⟨fun both taken rest publisher split ran => (both taken rest publisher split ran).1, ?_⟩
  intro always taken rest publisher split ran
  have agrees : publisher.eventRelationMap = initSubscriber publisher.rows :=
    always taken rest publisher split ran
  refine ⟨agrees, fun label first failed => ?_⟩
  obtain ⟨later, rfl⟩ : ∃ later, rest = label :: later := List.head?_eq_some_iff.mp first
  have again : (publisher.call label).2.eventRelationMap = initSubscriber (publisher.call label).2.rows :=
    always (taken ++ [label]) later _ (by simp [split]) (Transition.run_append ran [label])
  have kept := failed_rows failed
  have same := again.trans ((congrArg initSubscriber kept).trans agrees.symm)
  cases publisher
  exact congrArg₂ DataPublisher.mk same kept

def eventA : SubscribedEvent := ⟨[65], by decide, by decide, by decide, by decide⟩

/-- The insert fails after the memory has been changed. -/
theorem add_fails_disagrees :
    ∃ publisher, Transition.run step ⟨initSubscriber [], []⟩ [.add 10 [eventA] { write := false }] = some publisher ∧
      publisher.rows = [] ∧ ([65], 10) ∈ publisher.eventRelationMap ∧ ¬ publisher.Agrees := by
  refine ⟨_, rfl, rfl, by decide, ?_⟩
  rw [Agrees]
  decide

end DataPublisher
end Hiview.EventService
