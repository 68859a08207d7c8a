import Mathlib.Data.List.TakeWhile

/-! Texts of paths and the locations they lead to, through directories and links. A
location is the chain of names from the root, without links and without `..`. -/
namespace Hiview.FilePath
open List

structure Name where
  text : List Char
  nonempty : text ≠ []
  noSlash : '/' ∉ text
  notHere : text ≠ ['.']
  notUp : text ≠ ['.', '.']
  deriving DecidableEq

abbrev Location := List Name

inductive Component where
  | here
  | up
  | name (name : Name)
  deriving DecidableEq

/-- Nothing between two slashes stands for the directory itself. -/
def component (text : List Char) : Component :=
  if valid : (text ≠ [] ∧ '/' ∉ text) ∧ text ≠ ['.'] ∧ text ≠ ['.', '.'] then
    .name ⟨text, valid.1.1, valid.1.2, valid.2.1, valid.2.2⟩
  else if text = ['.', '.'] then .up
  else .here

def components (path : List Char) : List Component :=
  (path.splitOn '/').map component

/-- The text of a location below the root. -/
def body (location : Location) : List Char :=
  location.flatMap fun name => '/' :: name.text

def render (location : Location) : List Char :=
  if location = [] then ['/'] else body location

theorem Name.eq_of_beginning {first second : Name} {rest other : List Char}
    (begins : first.text ++ '/' :: rest <+: second.text ++ other) (after : other = [] ∨ other.head? = some '/') :
    first = second := by
  obtain ⟨tail, same⟩ := begins
  have stops (name : Name) : name.text.takeWhile (· != '/') = name.text := by
    refine takeWhile_eq_self_iff.mpr ?_
    intro char member
    exact bne_iff_ne.mpr fun slash => name.noSlash (slash ▸ member)
  have left : (first.text ++ '/' :: rest ++ tail).takeWhile (· != '/') = first.text := by
    rw [append_assoc, takeWhile_append, stops, if_pos rfl]
    simp
  have right : (second.text ++ other).takeWhile (· != '/') = second.text := by
    rw [takeWhile_append, stops, if_pos rfl]
    obtain rfl | slash := after
    · simp
    · obtain ⟨others, rfl⟩ := List.head?_eq_some_iff.mp slash
      simp
  have texts : first.text = second.text := by rw [← left, same, right]
  cases first
  cases second
  simp only [Name.mk.injEq]
  exact texts

theorem body_head (location : Location) : body location = [] ∨ (body location).head? = some '/' := by
  cases location with
  | nil => exact .inl rfl
  | cons name rest => exact .inr rfl

theorem body_last (below : location ≠ []) : (body location).getLast? ≠ some '/' := by
  intro slash
  obtain ⟨before, name, rfl⟩ : ∃ before name, location = before ++ [name] :=
    ⟨_, _, (dropLast_concat_getLast below).symm⟩
  have last : (body (before ++ [name])).getLast? = name.text.getLast? := by
    cases text : name.text with
    | nil => exact absurd text name.nonempty
    | cons first others => simp [body, text, List.getLast?_append, List.getLast?_cons]
  rw [last] at slash
  exact name.noSlash (mem_of_getLast? slash)

def Inside (directory location : Location) : Prop :=
  directory <+: location ∧ directory ≠ location

instance (directory location : Location) : Decidable (Inside directory location) :=
  inferInstanceAs (Decidable (_ ∧ _))

theorem inside_of_body {directory location : Location} (begins : body directory ++ ['/'] <+: body location) :
    Inside directory location := by
  induction directory generalizing location with
  | nil =>
    refine ⟨ nil_prefix, ?_⟩
    rintro rfl
    exact absurd (prefix_nil.mp begins) (by simp)
  | cons name rest ih =>
    cases location with
    | nil => exact absurd (prefix_nil.mp begins) (by simp)
    | cons other others =>
      have texts : name.text ++ (body rest ++ ['/']) <+: other.text ++ body others := by
        simpa [body] using begins
      obtain rfl : name = other := by
        cases rest with
        | nil => exact Name.eq_of_beginning texts (body_head others)
        | cons next more =>
          refine @Name.eq_of_beginning name other (next.text ++ (body more ++ ['/'])) _ ?_ (body_head others)
          simpa [body] using texts
      obtain ⟨inside, different⟩ := ih ((prefix_append_right_inj _).mp texts)
      exact ⟨prefix_cons_inj name |>.mpr inside, fun same => different (List.cons.inj same).2⟩

inductive Node where
  | dir (size : Nat)
  | file (content : List UInt8)
  | link (target : List Char)
  deriving DecidableEq

def Node.isDir : Node → Bool
  | .dir _ => true
  | .file _ => false
  | .link _ => false

structure FileSystem where
  node : Location → Option Node
  root : (node []).any Node.isDir = true

section
variable (fs : FileSystem)

namespace FileSystem

def isDir (location : Location) : Bool :=
  (fs.node location).any Node.isDir

theorem isDir_iff {fs : FileSystem} {location : Location} :
    fs.isDir location = true ↔ ∃ size, fs.node location = some (.dir size) := by
  unfold isDir
  cases node : fs.node location with
  | none => simp
  | some entry => cases entry <;> simp [Node.isDir]

/-- A change never reaches the root. -/
def set (directory : Location) (name : Name) (node : Option Node) : FileSystem where
  node location := if location = directory ++ [name] then node else fs.node location
  root := by
    rw [if_neg (by simp)]
    exact fs.root

end FileSystem

/-- Where the target of a link starts. -/
def start (current : Location) (target : List Char) : Location :=
  if target.head? = some '/' then [] else current

/-- The way along the components; links are left to `follow`. -/
def walkWith (follow : Location → List Component → Option Location) (fs : FileSystem) :
    Location → List Component → Option Location
  | current, [] => some current
  | current, component :: rest =>
    if fs.isDir current then
      match component with
      | .here => walkWith follow fs current rest
      | .up => walkWith follow fs current.dropLast rest
      | .name name =>
        match fs.node (current ++ [name]) with
        | none => none
        | some (.link target) => follow (start current target) (components target ++ rest)
        | some _ => walkWith follow fs (current ++ [name]) rest
    else none

/-- What the first component of a way leads to. -/
inductive Goes (follow : Location → List Component → Option Location) (fs : FileSystem) (current : Location)
    (rest : List Component) (location : Location) : Component → Prop where
  | here : walkWith follow fs current rest = some location → Goes follow fs current rest location .here
  | up : walkWith follow fs current.dropLast rest = some location → Goes follow fs current rest location .up
  | link {name : Name} {target : List Char} : fs.node (current ++ [name]) = some (.link target) →
      follow (start current target) (components target ++ rest) = some location →
      Goes follow fs current rest location (.name name)
  | node {name : Name} {entry : Node} : fs.node (current ++ [name]) = some entry →
      (∀ target, entry ≠ .link target) → walkWith follow fs (current ++ [name]) rest = some location →
      Goes follow fs current rest location (.name name)

theorem walkWith_cons {follow : Location → List Component → Option Location} {fs : FileSystem}
    {component : Component} {rest : List Component} :
    walkWith follow fs current (component :: rest) = some location ↔
      fs.isDir current = true ∧ Goes follow fs current rest location component := by
  unfold walkWith
  by_cases inDir : fs.isDir current
  · rw [if_pos inDir, and_iff_right inDir]
    constructor
    · intro found
      cases component with
      | here => exact .here found
      | up => exact .up found
      | name name =>
        cases known : fs.node (current ++ [name]) with
        | none => simp [known] at found
        | some entry =>
          simp only [known] at found
          cases entry with
          | link target => exact .link known found
          | dir size => exact .node known (by simp) found
          | file content => exact .node known (by simp) found
    · intro goes
      cases goes with
      | here found => exact found
      | up found => exact found
      | link known found => simpa only [known] using found
      | @node name entry known plain found =>
        simp only [known]
        cases entry with
        | link target => exact absurd rfl (plain target)
        | dir size => exact found
        | file content => exact found
  · rw [if_neg inDir]
    exact iff_of_false (fun found => by cases found) fun both => inDir both.1

/-- The way with at most so many links. -/
def walk (fs : FileSystem) : Nat → Location → List Component → Option Location
  | 0 => walkWith (fun _ _ => none) fs
  | links + 1 => walkWith (walk fs links) fs

def maxLinks : Nat := 40

/-- What a system call takes of a text: it ends at the first zero. -/
def cText (path : List Char) : List Char :=
  path.takeWhile (· ≠ Char.ofNat 0)

/-- What `realpath` and `open` arrive at; relative paths start at the root. -/
def resolve (path : List Char) : Option Location :=
  if cText path = [] then none else walk fs maxLinks [] (components (cText path))

/-- The directory and the name in it that a path stands for when a link at its end is
not followed. -/
def placeOf (path : List Char) : Option (Location × Name) :=
  match (components (cText path)).getLast? with
  | some (.name name) =>
    match walk fs maxLinks [] (components (cText path)).dropLast with
    | some directory => if fs.isDir directory then some (directory, name) else none
    | none => none
  | _ => none

/-- Directories and links of the one are in the other. -/
structure FileSystem.Below (smaller larger : FileSystem) : Prop where
  dir : ∀ location, smaller.isDir location → larger.isDir location
  link : ∀ location target, smaller.node location = some (.link target) → larger.node location = some (.link target)

theorem FileSystem.Below.refl : fs.Below fs where
  dir _ isDir := isDir
  link _ _ found := found

theorem FileSystem.Below.trans {first second third : FileSystem} (lower : first.Below second)
    (upper : second.Below third) : first.Below third where
  dir location isDir := upper.dir location (lower.dir location isDir)
  link location target found := upper.link location target (lower.link location target found)

section
variable {smaller larger : FileSystem} {follow below : Location → List Component → Option Location}
variable {current directory : Location}

theorem walkWith_below (order : smaller.Below larger)
    (followed : ∀ current rest directory, below current rest = some directory → smaller.isDir directory →
      follow current rest = some directory) (found : walkWith below smaller current path = some directory)
    (isDir : smaller.isDir directory) : walkWith follow larger current path = some directory := by
  induction path generalizing current with
  | nil => exact found
  | cons component rest ih =>
    obtain ⟨inDir, goes⟩ := walkWith_cons.mp found
    refine walkWith_cons.mpr ⟨order.dir current inDir, ?_⟩
    cases goes with
    | here led => exact .here (ih led)
    | up led => exact .up (ih led)
    | link known led => exact .link (order.link _ _ known) (followed _ _ _ led isDir)
    | @node name entry known plain led =>
      -- a file can only be the end of the way, and the end is a directory
      have inside : smaller.isDir (current ++ [name]) = true := by
        cases rest with
        | nil =>
          obtain rfl := Option.some_inj.mp led
          exact isDir
        | cons next more => exact (walkWith_cons.mp led).1
      obtain ⟨size, there⟩ := FileSystem.isDir_iff.mp (order.dir _ inside)
      exact .node there (by simp) (ih led)

theorem walk_below (order : smaller.Below larger) (links : Nat)
    (found : walk smaller links current path = some directory) (isDir : smaller.isDir directory) :
    walk larger links current path = some directory := by
  induction links generalizing current path directory with
  | zero => exact walkWith_below order (fun _ _ _ none _ => absurd none (by simp)) found isDir
  | succ links ih => exact walkWith_below order (fun _ _ _ found isDir => ih found isDir) found isDir

end

/-- The last component of a way is taken in a directory. -/
structure Ends (directory : Location) (last : Component) (location : Location) : Prop where
  isDir : fs.isDir directory = true
  here : last = .here → location = directory
  present : ∀ name, last = .name name → (fs.node (directory ++ [name])).isSome

end

section
variable {fs : FileSystem} {current location : Location}

theorem walkWith_snoc (followed : ∀ current path last location, follow current (path ++ [last]) = some location →
      ∃ directory, follow current path = some directory ∧ Ends fs directory last location)
    (found : walkWith follow fs current (path ++ [last]) = some location) :
    ∃ directory, walkWith follow fs current path = some directory ∧ Ends fs directory last location := by
  induction path generalizing current with
  | nil =>
    obtain ⟨inDir, goes⟩ := walkWith_cons.mp found
    refine ⟨current, rfl, inDir, ?_, ?_⟩
    · rintro rfl
      cases goes with
      | here led => exact (Option.some_inj.mp led).symm
    · rintro name rfl
      cases goes with
      | link known => rw [known, Option.isSome_some]
      | node known => rw [known, Option.isSome_some]
  | cons component rest ih =>
    rw [cons_append] at found
    obtain ⟨inDir, goes⟩ := walkWith_cons.mp found
    have further {directory : Location} (goes : Goes follow fs current rest directory component) :
        walkWith follow fs current (component :: rest) = some directory :=
      walkWith_cons.mpr ⟨inDir, goes⟩
    cases goes with
    | here led =>
      obtain ⟨directory, before, ends⟩ := ih led
      exact ⟨directory, further (.here before), ends⟩
    | up led =>
      obtain ⟨directory, before, ends⟩ := ih led
      exact ⟨directory, further (.up before), ends⟩
    | link known led =>
      rw [← append_assoc] at led
      obtain ⟨directory, before, ends⟩ := followed _ _ _ _ led
      exact ⟨directory, further (.link known before), ends⟩
    | node known plain led =>
      obtain ⟨directory, before, ends⟩ := ih led
      exact ⟨directory, further (.node known plain before), ends⟩

theorem walk_snoc (links : Nat) (found : walk fs links current (path ++ [last]) = some location) :
    ∃ directory, walk fs links current path = some directory ∧ Ends fs directory last location := by
  induction links generalizing current path last location with
  | zero =>
    refine walkWith_snoc ?_ found
    intro current path last location none
    cases none
  | succ links ih =>
    have followed (current path last location) (found : walk fs links current (path ++ [last]) = some location) :=
      ih found
    exact walkWith_snoc followed found

theorem placeOf_eq_some :
    placeOf fs path = some (directory, name) ↔
      ∃ before, components (cText path) = before ++ [.name name] ∧ walk fs maxLinks [] before = some directory ∧
        fs.isDir directory = true := by
  constructor
  · fun_cases placeOf fs path with
    | case1 name last directory walked isDir =>
      rintro ⟨⟩
      obtain ⟨before, parts⟩ := List.getLast?_eq_some_iff.mp last
      rw [parts, dropLast_concat] at walked
      exact ⟨before, parts, walked, isDir⟩
    | _ => nofun
  · rintro ⟨before, parts, walked, isDir⟩
    simp [placeOf, parts, walked, isDir]

theorem resolve_walk (found : resolve fs path = some location) :
    walk fs maxLinks [] (components (cText path)) = some location := by
  unfold resolve at found
  split at found
  · cases found
  · exact found

theorem placeOf_exists (resolved : resolve fs path = some location)
    (place : placeOf fs path = some (directory, name)) :
    (fs.node (directory ++ [name])).isSome := by
  obtain ⟨before, parts, walked, _⟩ := placeOf_eq_some.mp place
  have whole := resolve_walk resolved
  rw [parts] at whole
  obtain ⟨reached, same, ends⟩ := walk_snoc maxLinks whole
  obtain rfl := Option.some_inj.mp (walked.symm.trans same)
  exact ends.present name rfl

end

theorem placeOf_below (order : smaller.Below larger) (found : placeOf smaller path = some place) :
    placeOf larger path = some place := by
  obtain ⟨directory, name⟩ := place
  obtain ⟨before, parts, walked, isDir⟩ := placeOf_eq_some.mp found
  exact placeOf_eq_some.mpr ⟨before, parts, walk_below order maxLinks walked isDir, order.dir directory isDir⟩

def leadsOn : Option Node → Bool
  | some (.dir _) => true
  | some (.link _) => true
  | some (.file _) => false
  | none => false

section
variable {fs : FileSystem} {directory : Location} {name : Name} {node : Option Node}

theorem FileSystem.below_of_leadsOn {smaller larger : FileSystem}
    (same : ∀ location, leadsOn (smaller.node location) = true → larger.node location = smaller.node location) :
    smaller.Below larger := by
  constructor
  · intro location isDir
    obtain ⟨size, found⟩ := isDir_iff.mp isDir
    have kept := same location (by rw [found]; rfl)
    exact isDir_iff.mpr ⟨size, kept.trans found⟩
  · intro location target found
    have kept := same location (by rw [found]; rfl)
    exact kept.trans found

theorem FileSystem.set_below (plain : leadsOn node = false) : (fs.set directory name node).Below fs := by
  apply below_of_leadsOn
  intro location leads
  unfold set at leads ⊢
  by_cases changed : location = directory ++ [name]
  · simp [changed, plain] at leads
  · simp [changed]

theorem FileSystem.below_set (plain : leadsOn (fs.node (directory ++ [name])) = false) :
    fs.Below (fs.set directory name node) := by
  apply below_of_leadsOn
  intro location leads
  unfold set
  by_cases changed : location = directory ++ [name]
  · subst changed
    rw [plain] at leads
    cases leads
  · simp [changed]

theorem FileSystem.set_node : (fs.set directory name node).node (directory ++ [name]) = node :=
  if_pos rfl

end

end Hiview.FilePath
