import RpcBinder.Text.Space

/-!
# Package filters

A filter entry covers a package and everything below it.  What is excluded stays out, and
without included packages everything else is in.

## Main definitions

* `PackageFilter`, `PackageFilter.allows` — filters and the packages that they let through.
-/

namespace RpcBinder

/-- Packages to include and to exclude. -/
structure PackageFilter where
  /-- The packages to include; none means all. -/
  included : List String := []
  /-- The packages to exclude. -/
  excluded : List String := []
  deriving DecidableEq, Repr, Inhabited

namespace PackageFilter

/-- An entry from its end on, without the wildcards there. -/
def dropWildcards : List Char → List Char
  | '*' :: '.' :: rest => dropWildcards rest
  | reversed => reversed

/-- The package that an entry names, without white space around it and wildcards behind it. -/
def entryPackage (entry : String) : List Char :=
  (dropWildcards (trim entry.toList).reverse).reverse

/-- An entry covers a package: it names the package itself or one around it. -/
def covers (entry package : String) : Bool :=
  let named := entryPackage entry
  named == package.toList || (named ++ ['.']).isPrefixOf package.toList

/-- The filter lets a package through. -/
def allows (filter : PackageFilter) (package : String) : Bool :=
  !filter.excluded.any (covers · package) &&
    (filter.included.isEmpty || filter.included.any (covers · package))

/-- The filter lets everything through because it has no entries. -/
def isNoop (filter : PackageFilter) : Bool :=
  filter.included.isEmpty && filter.excluded.isEmpty

end PackageFilter

end RpcBinder
