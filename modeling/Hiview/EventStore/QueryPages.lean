import Hiview.EventStore.SysEventDatabase
import Hiview.Lib.Paging

/-! One execution of a query reads one page of its files, and the upper sequence
it leaves behind selects the files below that page. -/
namespace Hiview.EventStore.SysEventDatabase
open Paging Bool List

variable {arg : SysEventQueryArg}

theorem suits_next (valid : seq ≠ invalidValueInt) (lower : arg.toSeq = invalidValueInt ∨ seq ≤ arg.toSeq)
    (info : SplitedEventInfo) :
    suits { arg with toSeq := seq } info = (suits arg info && decide (info.seq < seq)) := by
  have bounds : (decide (seq = invalidValueInt) || decide (info.seq < seq)) =
      ((decide (arg.toSeq = invalidValueInt) || decide (info.seq < arg.toSeq)) &&
        decide (info.seq < seq)) := by
    rw [decide_eq_false valid, Bool.false_or, Bool.eq_iff_iff]
    simp only [Bool.and_eq_true, Bool.or_eq_true, decide_eq_true_eq]
    constructor
    · intro low
      exact ⟨lower.imp id fun bound => by omega, low⟩
    · exact And.right
  rw [suits, bounds, suits]
  simp only [Bool.and_assoc, Bool.and_left_comm, Bool.and_comm]

theorem unrestricted_next (valid : seq ≠ invalidValueInt) :
    unrestricted { arg with toSeq := seq } = false := by
  rw [unrestricted, decide_eq_false valid, Bool.and_false]

theorem suits_of_unrestricted (free : unrestricted arg = true) (interval : arg.reportInterval = defaultReportInterval)
    (info : SplitedEventInfo) : suits arg info = true := by
  simp only [unrestricted, Bool.and_eq_true, decide_eq_true_eq] at free
  simp [suits, free.1.1, free.1.2, free.2, interval, Bool.and_self]

theorem containing_free (free : unrestricted arg = true) (seen : NameSeqMap) (files : List DbDoc) :
    containing arg seen files = files := by
  induction files with
  | nil => rfl
  | cons file rest ih => simp [containing, isContainQueryArg, free, ih]

theorem containing_cons (restricted : unrestricted arg = false) (seen : NameSeqMap) (file : DbDoc) (rest : List DbDoc) :
    containing arg seen (file :: rest) =
      if outdated arg seen file.info then containing arg seen rest
      else if suits arg file.info then file :: containing arg (noted seen file.info) rest
      else containing arg (noted seen file.info) rest := by
  have step : isContainQueryArg file.fileName arg seen =
      if outdated arg seen file.info then (false, seen)
      else (suits arg file.info, noted seen file.info) := by
    rw [isContainQueryArg, restricted, file.named]
    rfl
  rw [containing, step]
  cases outdated arg seen file.info with
  | true => rfl
  | false => rfl

theorem containing_sublist (arg : SysEventQueryArg) (seen : NameSeqMap) (files : List DbDoc) :
    (containing arg seen files).Sublist
      (files.filter fun file => unrestricted arg || suits arg file.info) := by
  cases free : unrestricted arg with
  | true =>
    rw [containing_free free, filter_eq_self.mpr (by simp)]
  | false =>
    induction files generalizing seen with
    | nil => exact .slnil
    | cons file rest ih =>
      rw [containing_cons free, filter_cons]
      cases outdated arg seen file.info with
      | true =>
        simp
        split
        · exact (ih seen).cons file
        · exact ih seen
      | false =>
        simp
        split
        · exact (ih _).cons_cons file
        · exact ih _

theorem getQueryFiles_bound (inside : file ∈ getQueryFiles env store arg) :
    arg.toSeq = invalidValueInt ∨ getFileSeq file ≤ arg.toSeq := by
  obtain ⟨dir, -, member⟩ := mem_flatMap.mp inside
  have chosen := (mem_filter.mp ((containing_sublist arg _ _).subset member)).2
  rw [or_eq_true] at chosen
  rcases chosen with free | suited
  · simp only [unrestricted, and_eq_true, decide_eq_true_eq] at free
    exact .inl free.2
  · simp only [suits, and_eq_true, or_eq_true, decide_eq_true_eq] at suited
    rw [(getFileSeq_eq file).2]
    exact suited.1.2.imp id Int.le_of_lt

theorem length_getQueryFiles_le (env : QueryEnv) (store : List DomainDir) (arg : SysEventQueryArg) :
    (getQueryFiles env store arg).length ≤ (store.map fun dir => dir.files.length).sum := by
  have dirs : (getQueryDirsByDomain store arg.domain).Sublist store := by
    rw [getQueryDirsByDomain]
    split
    · exact .refl store
    · exact filter_sublist
  have files (dir : DomainDir) : (containing arg (fun _ => none)
      (env.sortedFiles.order dir.files)).length ≤ dir.files.length := by
    rw [← (env.sortedFiles.perm dir.files).length_eq]
    exact ((containing_sublist arg _ _).trans filter_sublist).length_le
  rw [getQueryFiles, length_flatMap]
  exact (sum_le_sum fun dir _ => files dir).trans ((dirs.map _).sum_le_sum fun _ _ => Nat.zero_le _)

theorem below_cons (seq : Int) (file : DbDoc) (rest : List DbDoc) :
    below getFileSeq seq (file :: rest) =
      if file.info.seq < seq then file :: below getFileSeq seq rest
      else below getFileSeq seq rest := by
  rw [below, filter_cons, (getFileSeq_eq file).2]
  simp
  rfl

/-- The sequences in a map come from names of db files. -/
def Positive (seen : NameSeqMap) : Prop := ∀ name value, seen name = some value → 0 < value

theorem positive_empty : Positive fun _ => none := fun _ _ known => nomatch known

theorem positive_noted (positive : Positive seen) (file : DbDoc) :
    Positive (noted seen file.info) := by
  intro name value known
  rw [noted] at known
  split at known
  · cases known
    exact (getFileSeq_eq file).1
  · exact positive name value known

theorem not_outdated (positive : Positive seen) (negative : arg.fromSeq < 0) (info : SplitedEventInfo) :
    outdated arg seen info = false := by
  rw [outdated]
  cases known : seen info.name with
  | none => rfl
  | some value =>
    have above := positive _ _ known
    exact decide_eq_false (by omega)

/-- The first sequence and the interval rule out no file. -/
structure Wide (arg : SysEventQueryArg) : Prop where
  first : arg.fromSeq < 0
  interval : arg.reportInterval = defaultReportInterval

section Next
variable {arg : SysEventQueryArg} {seq : Int} (valid : seq ≠ invalidValueInt)
  (lower : arg.toSeq = invalidValueInt ∨ seq ≤ arg.toSeq)
include valid lower

theorem containing_next_restricted (restricted : unrestricted arg = false) (seen : NameSeqMap)
    (files : List DbDoc) :
    containing { arg with toSeq := seq } seen files =
      below getFileSeq seq (containing arg seen files) := by
  induction files generalizing seen with
  | nil => rfl
  | cons file rest ih =>
    rw [containing_cons (unrestricted_next valid), containing_cons restricted,
      suits_next valid lower]
    change (if outdated arg seen file.info = true then _ else _) = _
    cases outdated arg seen file.info with
    | true => exact ih seen
    | false =>
      cases suits arg file.info with
      | false => exact ih _
      | true =>
        simp [below_cons, ih]

theorem containing_next_free (free : unrestricted arg = true) (wide : Wide arg) (positive : Positive seen)
    (files : List DbDoc) :
    containing { arg with toSeq := seq } seen files = below getFileSeq seq files := by
  induction files generalizing seen with
  | nil => rfl
  | cons file rest ih =>
    have fresh : outdated { arg with toSeq := seq } seen file.info = false :=
      not_outdated positive wide.first file.info
    rw [containing_cons (unrestricted_next valid), suits_next valid lower,
      suits_of_unrestricted free wide.interval, fresh, below_cons,
      ih (positive_noted positive file)]
    simp

theorem getQueryFiles_next (wide : unrestricted arg = true → Wide arg) (env : QueryEnv)
    (store : List DomainDir) :
    getQueryFiles env store { arg with toSeq := seq } =
      below getFileSeq seq (getQueryFiles env store arg) := by
  rw [getQueryFiles, getQueryFiles, below, filter_flatMap]
  congr 1
  funext dir
  cases free : unrestricted arg with
  | false => exact containing_next_restricted valid lower free _ _
  | true =>
    rw [containing_next_free valid lower free (wide free) positive_empty, containing_free free]
    rfl

end Next

section Page
variable (env : QueryEnv) (cond : Entry → Bool)

def weight (file : DbDoc) : Nat := (found cond file).length

theorem length_found (files : List DbDoc) :
    (files.flatMap (found cond)).length = load (weight cond) files := by
  induction files with
  | nil => rfl
  | cons file rest ih => rw [flatMap_cons, length_append, ih, load, weight]

/-- The files in the order in which they are read, without the unreadable ones. -/
def readable : Handout getFileSeq where
  order files := (env.fileQueue.order files).filter fun file => file.code = .success
  inside files := List.filter_sublist.subperm.trans (env.fileQueue.perm files).subperm
  falling files := ((env.fileQueue.sorted files).filter _).imp fun ordered => by omega

theorem queryByFiles_fill (limit total : Int) (files : List DbDoc) :
    queryByFiles cond limit total files =
      (((fill (weight cond) limit total (files.filter fun file => file.code = .success)).1.flatMap
          (found cond)),
        (fill (weight cond) limit total (files.filter fun file => file.code = .success)).2.map
          getFileSeq) := by
  induction files generalizing total with
  | nil => rfl
  | cons file rest ih =>
    rw [queryByFiles, filter_cons]
    by_cases read : file.code = .success
    · rw [if_neg (not_not_intro read), if_pos (decide_eq_true read), fill, weight]
      split
      · exact Prod.ext (append_nil _).symm rfl
      · rw [ih, flatMap_cons]
    · rw [if_pos read, if_neg (by simpa only [decide_eq_true_eq] using read), ih]

/-- The page an execution reads, and the file that closes it. -/
def page (limit : Int) (files : List DbDoc) : List DbDoc × Option DbDoc :=
  fill (weight cond) limit 0 ((readable env).order files)

theorem query_page (store : List DomainDir) (limit : Int) (asked : SysEventQuery) :
    query env store limit asked =
      ((page env asked.cond limit (getQueryFiles env store asked.queryArg)).1.flatMap
          (found asked.cond),
        { asked with queryArg := { asked.queryArg with
            toSeq := ((page env asked.cond limit (getQueryFiles env store asked.queryArg)).2.map
              getFileSeq).getD asked.queryArg.toSeq } }) := by
  rw [query, queryByFiles_fill]
  rfl

end Page
end Hiview.EventStore.SysEventDatabase
