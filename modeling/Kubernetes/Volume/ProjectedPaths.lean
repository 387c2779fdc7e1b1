import Kubernetes.Basic.Map
import Kubernetes.Basic.Text

/-!
# The paths of a projected volume

`validatePath` looks at the elements of a path as it is spelled, and the writer uses the path as
`path.Clean` leaves it.  Cleaning drops empty elements and `.`, so that an element behind them that
starts with `..` comes to the front, and two spellings of a path become one.
-/

namespace Kubernetes.Volume.AtomicWriter

open List

def maxFileNameLength : ℕ := 255

def maxPathLength : ℕ := 4096

def itemError (targetPath item : String) : Option String :=
  if item = ".." then some s!"invalid path: must not contain '..': {targetPath}"
  else if maxFileNameLength < item.utf8ByteSize then
    some s!"invalid path: filenames must be less than {maxFileNameLength} characters"
  else none

def validatePath (targetPath : String) : Option String :=
  let items := split targetPath "/"
  if targetPath = "" then some "invalid path: must not be empty: \"\""
  else if hasPrefix targetPath "/" then some s!"invalid path: must be relative path: {targetPath}"
  else if maxPathLength < targetPath.utf8ByteSize then
    some s!"invalid path: must be less than {maxPathLength} characters"
  else (items.findSome? (itemError targetPath)).or
    (if hasPrefix (items.headD "") ".." ∧ 2 < (items.headD "").utf8ByteSize then
      some s!"invalid path: must not start with '..': {targetPath}"
    else none)

/-- `path.Clean` takes one more element of a relative path; the elements so far are in reverse. -/
def cleanItem (out : List String) (item : String) : List String :=
  if item = "" ∨ item = "." then out
  else if item = ".." ∧ out.headD ".." ≠ ".." then out.tail
  else item :: out

/-- The elements of the cleaned path, none for `.`. -/
def clean (targetPath : String) : List String :=
  ((split targetPath "/").foldl cleanItem []).reverse

variable {FileProjection : Type}

def addEntry (cleanPayload : Map (List String) FileProjection) (entry : String × FileProjection) :
    Except String (Map (List String) FileProjection) :=
  match validatePath entry.1 with
  | some err => .error err
  | none => .ok (cleanPayload.insert (clean entry.1) entry.2)

/-- The payload is a map, given in the order of the iteration. -/
def validatePayload (payload : List (String × FileProjection)) :
    Except String (Map (List String) FileProjection) :=
  payload.foldlM addEntry ∅

/-- The path starts with a name that the writer keeps for itself. -/
def reserved (path : List String) : Bool := path.head?.any (hasPrefix · "..")

/-- The directories that `MkdirAll` makes for a path, and the path itself, in both directories. -/
def made (path : List String) : List (List String) := path.inits.filter (· ≠ [])

/-- What `filepath.Walk` finds below the target directory. -/
structure Target where
  walked : List (List String)
  named : ∀ path ∈ walked, path ≠ [] ∧ ".." ∉ path

def pathsToRemove (target : Target) (cleanPayload : Map (List String) FileProjection) :
    List (List String) :=
  target.walked.filter fun path ↦
    reserved path = false ∧ ∀ file ∈ cleanPayload.keys, ¬ path <+: file

def Inside (path : List String) : Prop := path ≠ [] ∧ ".." ∉ path ∧ reserved path = false

/-- What `Write` makes and removes for the payload is inside of its directories, and no two entries
have become one. -/
structure Confined (target : Target) (payload : List (String × FileProjection))
    (cleanPayload : Map (List String) FileProjection) : Prop where
  made : ∀ path ∈ cleanPayload.keys, ∀ file ∈ made path, Inside file
  removed : ∀ path ∈ pathsToRemove target cleanPayload, Inside path
  unmerged : cleanPayload.keys.card = payload.length

def elements (targetPath : String) : List String :=
  (split targetPath "/").filter fun item ↦ item ≠ "" ∧ item ≠ "."

theorem parent_notMem_split {targetPath : String} (hvalid : validatePath targetPath = none) :
    ".." ∉ split targetPath "/" := by
  intro hparent
  unfold validatePath at hvalid
  split_ifs at hvalid
  rw [Option.or_eq_none_iff, findSome?_eq_none_iff] at hvalid
  exact absurd (hvalid.1 ".." hparent) (by simp [itemError])

theorem foldl_cleanItem {items : List String} (hparent : ".." ∉ items) (out : List String) :
    items.foldl cleanItem out =
      (items.filter fun item ↦ item ≠ "" ∧ item ≠ ".").reverse ++ out := by
  induction items generalizing out with
  | nil => rfl
  | cons item items ih =>
    rw [mem_cons, not_or] at hparent
    rw [foldl_cons, ih hparent.2, cleanItem]
    by_cases hdropped : item = "" ∨ item = "."
    · rw [if_pos hdropped, filter_cons_of_neg (by grind)]
    · rw [if_neg hdropped, if_neg fun h ↦ hparent.1 h.1.symm, filter_cons_of_pos (by grind),
        reverse_cons, append_assoc, singleton_append]

theorem clean_eq_elements {targetPath : String} (hvalid : validatePath targetPath = none) :
    clean targetPath = elements targetPath := by
  rw [clean, foldl_cleanItem (parent_notMem_split hvalid), append_nil, reverse_reverse, elements]

variable {payload : List (String × FileProjection)} {cleanPayload : Map (List String) FileProjection}

theorem foldlM_addEntry {start : Map (List String) FileProjection}
    (hvalid : payload.foldlM addEntry start = .ok cleanPayload) :
    (∀ entry ∈ payload, ".." ∉ elements entry.1) ∧
      cleanPayload.keys = start.keys ∪ (payload.map fun entry ↦ elements entry.1).toFinset := by
  induction payload generalizing start with
  | nil =>
    cases hvalid
    simp
  | cons entry payload ih =>
    rw [foldlM_cons, addEntry] at hvalid
    cases hpath : validatePath entry.1 with
    | some err => simp [hpath, bind, Except.bind] at hvalid
    | none =>
      rw [hpath] at hvalid
      obtain ⟨hrest, hkeys⟩ := ih hvalid
      refine ⟨forall_mem_cons.mpr ⟨fun h ↦ ?_, hrest⟩, ?_⟩
      · exact parent_notMem_split hpath (mem_of_mem_filter h)
      · rw [hkeys, clean_eq_elements hpath]
        ext path
        simp [Finmap.mem_keys, or_assoc]

theorem inside_of_mem_made {path file : List String} (hparent : ".." ∉ path)
    (hreserved : reserved path = false) (hfile : file ∈ made path) : Inside file := by
  obtain ⟨hmem, hne⟩ := mem_filter.mp hfile
  obtain ⟨rest, rfl⟩ := (mem_inits _ _).mp hmem
  refine ⟨of_decide_eq_true hne, fun h ↦ hparent (mem_append_left rest h), ?_⟩
  rwa [reserved, head?_append_of_ne_nil _ (of_decide_eq_true hne)] at hreserved

/-- The volume is confined exactly if no path has a reserved name behind empty elements and `.`, and
no two paths differ in such elements only. -/
theorem confined_iff (target : Target) (hvalid : validatePayload payload = .ok cleanPayload) :
    Confined target payload cleanPayload ↔
      (∀ entry ∈ payload, reserved (elements entry.1) = false) ∧
        (payload.map fun entry ↦ elements entry.1).Nodup := by
  obtain ⟨hparent, hkeys⟩ := foldlM_addEntry hvalid
  rw [Finmap.keys_empty, Finset.empty_union] at hkeys
  have hcard : cleanPayload.keys.card = payload.length ↔
      (payload.map fun entry ↦ elements entry.1).Nodup := by
    rw [hkeys, ← Multiset.coe_nodup, ← Multiset.toFinset_card_eq_card_iff_nodup]
    simp
  constructor
  · intro h
    refine ⟨fun entry hentry ↦ ?_, hcard.mp h.unmerged⟩
    by_cases hempty : elements entry.1 = []
    · rw [hempty]
      rfl
    · refine (h.made (elements entry.1) ?_ _ (mem_filter.mpr ⟨?_, decide_eq_true hempty⟩)).2.2
      · rw [hkeys, mem_toFinset]
        exact mem_map_of_mem hentry
      · exact (mem_inits _ _).mpr (prefix_refl _)
  · rintro ⟨hreserved, hnodup⟩
    refine ⟨?_, ?_, hcard.mpr hnodup⟩
    · intro path hpath file hfile
      rw [hkeys, mem_toFinset] at hpath
      obtain ⟨entry, hentry, rfl⟩ := mem_map.mp hpath
      exact inside_of_mem_made (hparent entry hentry) (hreserved entry hentry) hfile
    · intro path hpath
      obtain ⟨hwalked, hremoved⟩ := mem_filter.mp hpath
      obtain ⟨hne, hnotParent⟩ := target.named path hwalked
      exact ⟨hne, hnotParent, (of_decide_eq_true hremoved).1⟩

theorem nested_confined :
    ∃ cleanPayload, validatePayload [("a/b", 1), ("a/./c", 2)] = .ok cleanPayload ∧
      Confined ⟨[["old"]], by decide⟩ [("a/b", 1), ("a/./c", 2)] cleanPayload :=
  ⟨_, rfl, (confined_iff _ rfl).mpr (by decide +kernel)⟩

/-- The link of the writer is overwritten, and one of two files is lost. -/
theorem respelled_escapes :
    (∃ cleanPayload, validatePayload [("./..data", 1)] = .ok cleanPayload ∧
      ¬ Confined ⟨[], nofun⟩ [("./..data", 1)] cleanPayload) ∧
    ∃ cleanPayload, validatePayload [("a/b", 1), ("a//b", 2)] = .ok cleanPayload ∧
      ¬ Confined ⟨[], nofun⟩ [("a/b", 1), ("a//b", 2)] cleanPayload := by
  refine ⟨⟨_, rfl, fun h ↦ ?_⟩, _, rfl, fun h ↦ ?_⟩
  · exact absurd (h.made ["..data"] (by decide +kernel) ["..data"] (by decide +kernel)).2.2
      (by decide +kernel)
  · exact absurd h.unmerged (by decide +kernel)

end Kubernetes.Volume.AtomicWriter
