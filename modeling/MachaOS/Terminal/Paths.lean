/-
The paths of the shell: `normalize_path` and `abs_path`, and the walk through the directories that a
path stands for.
-/

import MachaOS.Lib.Words

namespace MachaOS

namespace Shell

open List
open Words

abbrev Path := List Char

def addComponent (parts : List Path) (component : Path) : List Path :=
  if component = [] ∨ component = ['.'] then parts
  else if component = ['.', '.'] then parts.dropLast
  else parts ++ [component]

def resolve (path : Path) : List Path :=
  (path.splitOn '/').foldl addComponent []

def normalizePath (path : Path) : Path :=
  '/' :: ['/'].intercalate (resolve path)

/-- What `abs_path` starts from. -/
structure Directories where
  home : Path
  workingDir : Path
deriving DecidableEq, Repr

namespace Directories

variable (dirs : Directories)

def cwd : Path := if dirs.workingDir = [] then dirs.home else dirs.workingDir

/-- A leading `~` stands for the home directory, if nothing or a slash follows it. -/
def expand (path : Path) : Path :=
  match path with
  | '~' :: rest => if rest = [] ∨ rest.head? = some '/' then dirs.home ++ rest else path
  | _ => path

def absPath (path : Path) : Path :=
  let expanded := dirs.expand path
  if expanded.head? = some '/' then normalizePath expanded
  else normalizePath (dirs.cwd ++ '/' :: expanded)

end Directories

structure IsName (component : Path) : Prop where
  some : component ≠ []
  notDot : component ≠ ['.']
  notDots : component ≠ ['.', '.']
  noSlash : '/' ∉ component

def visit (stack : List Path) (component : Path) : List Path :=
  if component = [] ∨ component = ['.'] then stack
  else if component = ['.', '.'] then stack.tail
  else component :: stack

def walk (stack : List Path) : List Path → List Path
  | [] => stack
  | component :: rest => walk (visit stack component) rest

theorem addComponent_visit (stack : List Path) (component : Path) :
    addComponent stack.reverse component = (visit stack component).reverse := by
  unfold addComponent visit
  split
  · rfl
  · split
    · rw [dropLast_reverse]
    · rw [reverse_cons]

theorem fold_walk (stack components : List Path) :
    components.foldl addComponent stack.reverse = (walk stack components).reverse := by
  induction components generalizing stack with
  | nil => rfl
  | cons component rest ih =>
      rw [foldl_cons, addComponent_visit, ih, walk]

theorem resolve_walk (path : Path) : resolve path = (walk [] (path.splitOn '/')).reverse :=
  fold_walk [] _

theorem addComponent_name {component : Path} (name : IsName component) (parts : List Path) :
    addComponent parts component = parts ++ [component] := by
  have notSkipped : ¬(component = [] ∨ component = ['.']) := by
    rintro (empty | dot)
    · exact name.some empty
    · exact name.notDot dot
  rw [addComponent, if_neg notSkipped, if_neg name.notDots]

theorem addComponent_names {parts : List Path} {component : Path}
    (names : ∀ part ∈ parts, IsName part) (noSlash : '/' ∉ component) :
    ∀ part ∈ addComponent parts component, IsName part := by
  intro part mem
  unfold addComponent at mem
  split at mem
  · exact names part mem
  · rename_i kept
    rw [not_or] at kept
    split at mem
    · exact names part (dropLast_subset parts mem)
    · rename_i notDots
      rcases mem_append.mp mem with earlier | last
      · exact names part earlier
      · rw [mem_singleton] at last
        subst last
        exact ⟨kept.1, kept.2, notDots, noSlash⟩

theorem fold_names {parts components : List Path} (names : ∀ part ∈ parts, IsName part)
    (noSlash : ∀ component ∈ components, '/' ∉ component) :
    ∀ part ∈ components.foldl addComponent parts, IsName part := by
  induction components generalizing parts with
  | nil => exact names
  | cons component rest ih =>
      have first := addComponent_names names (noSlash component mem_cons_self)
      exact ih first (fun other mem => noSlash other (mem_cons_of_mem component mem))

theorem resolve_names (path : Path) : ∀ part ∈ resolve path, IsName part := by
  apply fold_names
  · intro part never
    cases never
  · intro component mem
    exact piece_clean mem

theorem fold_addComponent {names : List Path} (clean : ∀ name ∈ names, IsName name)
    (parts : List Path) : names.foldl addComponent parts = parts ++ names := by
  induction names generalizing parts with
  | nil => rw [foldl_nil, append_nil]
  | cons name rest ih =>
      rw [foldl_cons, addComponent_name (clean name mem_cons_self),
        ih (fun other mem => clean other (mem_cons_of_mem name mem)), append_assoc,
        singleton_append]

theorem resolve_append (first second : Path) :
    resolve (first ++ '/' :: second) =
      (second.splitOn '/').foldl addComponent (resolve first) := by
  rw [resolve, splitOn_append_cons_self, foldl_append, resolve]

theorem resolve_slash (path : Path) : resolve ('/' :: path) = resolve path :=
  resolve_append [] path

theorem resolve_intercalate {names : List Path} (clean : ∀ name ∈ names, IsName name) :
    resolve (['/'].intercalate names) = names := by
  by_cases empty : names = []
  · subst empty
    rfl
  · rw [resolve, splitOn_intercalate '/' (fun name mem => (clean name mem).noSlash) empty,
      fold_addComponent clean, nil_append]

theorem resolve_normalizePath (path : Path) : resolve (normalizePath path) = resolve path := by
  rw [normalizePath, resolve_slash, resolve_intercalate (resolve_names path)]

theorem normalizePath_congr {first second : Path} (same : resolve first = resolve second) :
    normalizePath first = normalizePath second := by
  rw [normalizePath, normalizePath, same]

structure Canonical (path : Path) : Prop where
  absolute : path.head? = some '/'
  names : path = ['/'] ∨ ∀ component ∈ path.tail.splitOn '/', IsName component
  noTrailing : path = ['/'] ∨ path.getLast? ≠ some '/'

theorem getLast?_intercalate {names : List Path} (clean : ∀ name ∈ names, IsName name) :
    (['/'].intercalate names).getLast? ≠ some '/' := by
  induction names with
  | nil =>
      intro never
      cases never
  | cons name rest ih =>
      have first := clean name mem_cons_self
      have notLast : name.getLast? ≠ some '/' := by
        intro last
        exact first.noSlash (mem_of_getLast? last)
      have others := ih (fun other mem => clean other (mem_cons_of_mem name mem))
      cases rest with
      | nil =>
          rw [intercalate_singleton]
          exact notLast
      | cons next rest =>
          have someNext := (clean next (by simp)).some
          have rest_some : ['/'].intercalate (next :: rest) ≠ [] := by
            cases rest with
            | nil => rwa [intercalate_singleton]
            | cons after rest =>
                rw [intercalate_cons_cons, append_assoc]
                exact append_ne_nil_of_left_ne_nil someNext _
          rw [intercalate_cons_cons, List.getLast?_append_of_ne_nil _ rest_some]
          exact others

theorem canonical_normalizePath (path : Path) : Canonical (normalizePath path) := by
  have clean := resolve_names path
  by_cases root : resolve path = []
  · have shape : normalizePath path = ['/'] := by
      rw [normalizePath, root]
      rfl
    rw [shape]
    exact ⟨rfl, Or.inl rfl, Or.inl rfl⟩
  · refine ⟨rfl, Or.inr ?_, Or.inr ?_⟩
    · rw [normalizePath, tail_cons,
        splitOn_intercalate '/' (fun name mem => (clean name mem).noSlash) root]
      exact clean
    · have ends := getLast?_intercalate clean
      cases last : (['/'].intercalate (resolve path)).getLast? with
      | none =>
          have empty := List.getLast?_eq_none_iff.mp last
          have back := resolve_intercalate clean
          rw [empty] at back
          exact absurd back.symm root
      | some c =>
          rw [last] at ends
          rw [normalizePath, List.getLast?_cons, last]
          exact ends

theorem normalizePath_idempotent (path : Path) :
    normalizePath (normalizePath path) = normalizePath path :=
  normalizePath_congr (resolve_normalizePath path)

theorem normalizePath_append (first second : Path) :
    normalizePath (first ++ '/' :: second) =
      normalizePath (normalizePath first ++ '/' :: second) := by
  apply normalizePath_congr
  rw [resolve_append, resolve_append, resolve_normalizePath]

theorem absPath_normal (dirs : Directories) (path : Path) :
    ∃ source, dirs.absPath path = normalizePath source := by
  unfold Directories.absPath
  simp only
  split
  · exact ⟨_, rfl⟩
  · exact ⟨_, rfl⟩

theorem absPath_normalizePath (dirs : Directories) (path : Path) :
    dirs.absPath (normalizePath path) = normalizePath path := by
  have kept : dirs.expand (normalizePath path) = normalizePath path := rfl
  have absolute : (normalizePath path).head? = some '/' := rfl
  rw [Directories.absPath, kept, if_pos absolute]
  exact normalizePath_idempotent path

/-- Normalizing gives the canonical path of the directory that the components lead to. -/
theorem normalizePath_laws :
    (∀ path, Canonical (normalizePath path) ∧
      normalizePath (normalizePath path) = normalizePath path ∧
      normalizePath path = '/' :: ['/'].intercalate (walk [] (path.splitOn '/')).reverse) ∧
    (∀ first second, normalizePath (first ++ '/' :: second) =
      normalizePath (normalizePath first ++ '/' :: second)) ∧
    ∀ (dirs : Directories) (path : Path), dirs.absPath (dirs.absPath path) = dirs.absPath path := by
  refine ⟨?_, normalizePath_append, ?_⟩
  · intro path
    refine ⟨canonical_normalizePath path, normalizePath_idempotent path, ?_⟩
    rw [normalizePath, resolve_walk]
  · intro dirs path
    obtain ⟨source, normal⟩ := absPath_normal dirs path
    rw [normal]
    exact absPath_normalizePath dirs source

end Shell

end MachaOS
