import Mathlib.Data.List.TakeWhile
import Mathlib.Tactic

/-!
# Paths

The lexical functions of `path/filepath` on Unix, where a path is any bytes.

A path is the list of its bytes, and only the slash and the dot have a meaning.  `clean`
goes through the elements of a path, drops empty elements and those that are a single dot,
and lets a double dot remove the element before it; it never gives an empty path.  `join`
puts a slash between the elements that are not empty and cleans the result, and `dir` and
`base` are what stands before and behind the last slash.

Nothing here looks at a file system, so the functions are those of any program that puts
paths together.

**Results.**
* `clean_ne_nil`: a cleaned path is not empty.
* `join_ne_nil`: a path joined of elements of which one is not empty is not empty.
-/

namespace Otelop
namespace Lib

abbrev Path := List UInt8

/-- The separator. -/
def slash : UInt8 := 0x2F

namespace FilePath

/-- `.` and `..` -/
def dot : Path := [0x2E]

def dotdot : Path := [0x2E, 0x2E]

/-- `filepath.IsAbs` -/
def isAbs (path : Path) : Bool := decide (path.head? = some slash)

/-- The elements kept so far, the last one first, with one more element. -/
def cleanStep (rooted : Bool) (kept : List Path) (element : Path) : List Path :=
  if element = [] ∨ element = dot then kept
  else if element = dotdot then
    match kept with
    | [] => if rooted then [] else [dotdot]
    | last :: rest => if last = dotdot then dotdot :: kept else rest
  else element :: kept

/-- `filepath.Clean` -/
def clean (path : Path) : Path :=
  if path = [] then dot
  else
    let rooted := isAbs path
    let elements := (path.splitOn slash).foldl (cleanStep rooted) []
    let joined := List.intercalate [slash] elements.reverse
    if rooted then slash :: joined
    else if joined = [] then dot
    else joined

/-- `filepath.Join` -/
def join (elements : List Path) : Path :=
  match elements.dropWhile fun e => decide (e = []) with
  | [] => []
  | e :: rest => clean (List.intercalate [slash] (e :: rest))

/-- `filepath.Dir` -/
def dir (path : Path) : Path := clean (path.reverse.dropWhile fun b => decide (b ≠ slash)).reverse

/-- `filepath.Base` -/
def base (path : Path) : Path :=
  if path = [] then dot
  else
    let stripped := path.reverse.dropWhile fun b => decide (b = slash)
    let last := (stripped.takeWhile fun b => decide (b ≠ slash)).reverse
    if last = [] then [slash] else last

theorem clean_ne_nil (path : Path) : clean path ≠ [] := by
  rw [clean]
  by_cases hempty : path = []
  · rw [if_pos hempty]
    exact List.cons_ne_nil _ _
  · rw [if_neg hempty]
    dsimp only
    split_ifs with hrooted hjoined
    · exact List.cons_ne_nil _ _
    · exact List.cons_ne_nil _ _
    · exact hjoined

theorem join_ne_nil
    {elements : List Path} {e : Path} (he : e ∈ elements) (hne : e ≠ []) :
    join elements ≠ [] := by
  rw [join]
  cases hdrop : elements.dropWhile fun e => decide (e = []) with
  | nil =>
      have hall := List.dropWhile_eq_nil_iff.mp hdrop e he
      exact absurd (of_decide_eq_true hall) hne
  | cons first rest => exact clean_ne_nil _

end FilePath

end Lib
end Otelop
