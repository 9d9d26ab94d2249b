import Bindery.Name.Dotted

/-!
# Import paths

A module refers to another one by a relative path: one dot stands for the package of
the module itself, every further dot for the package around it, and the segments
behind the dots lead down again. `absolute` follows such a path from a module.
-/

namespace Bindery.ImportPath

/-- Climbs from the first of some packages, each of which lies in the next one, to a
package that contains `target`, a dot for each. -/
def climb (target : String) : List String → String
  | [] => "." ++ target
  | home :: outer =>
    if target = home then "."
    else if home = "" then "." ++ target
    else match Dotted.below? home target with
      | some rest => "." ++ rest
      | none => "." ++ climb target outer

def relative (home target : String) : String := climb target (home :: Dotted.ancestors home)

/-- The package that the path `source` means in package `home`. A path without a leading
dot means itself. -/
def absolute (home source : String) : String :=
  let dots := (source.toList.takeWhile (· = '.')).length
  let rest := source.toList.dropWhile (· = '.')
  if dots = 0 then source
  else
    let base := (Dotted.segments home).filter (· ≠ "")
    let kept := base.take (base.length - (dots - 1))
    Dotted.join (kept ++ if rest = [] then [] else [String.ofList rest])

end Bindery.ImportPath
