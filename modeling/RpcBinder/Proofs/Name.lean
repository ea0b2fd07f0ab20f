import RpcBinder.Marker
import RpcBinder.Proofs.Text.Parts

/-!
# Qualified names

A simple name without a dot stands behind the last dot of its qualified name, and the package in
front of it.

## Main results

* `splitLast?_qualifiedName` — a qualified name taken apart.
* `qualifiedName_eq_iff` — names and packages are told apart by their qualified names.
-/

namespace RpcBinder

theorem toList_qualifiedName {package : String} (h : package ≠ "") (simple : String) :
    (qualifiedName package simple).toList = package.toList ++ '.' :: simple.toList := by
  have hempty : package.isEmpty = false := by
    rw [Bool.eq_false_iff, ne_eq, String.isEmpty_iff]
    exact h
  simp [qualifiedName, hempty]

/-- In front of the last dot of a qualified name stands the package, if there is one. -/
theorem splitLast?_qualifiedName {simple : String} (h : '.' ∉ simple.toList) (package : String) :
    splitLast? '.' (qualifiedName package simple).toList =
      if package.isEmpty then none else some (package.toList, simple.toList) := by
  unfold qualifiedName
  split
  · exact splitLast?_eq_none h
  · rw [String.toList_append, String.toList_append, List.append_assoc]
    exact splitLast?_append h package.toList

/-- Names without a dot are told apart, with their packages, by their qualified names. -/
theorem qualifiedName_eq_iff {package simple otherPackage other : String}
    (h : '.' ∉ simple.toList) (hother : '.' ∉ other.toList) :
    qualifiedName package simple = qualifiedName otherPackage other ↔
      package = otherPackage ∧ simple = other := by
  constructor
  · intro heq
    have hsplit := splitLast?_qualifiedName h package
    rw [heq, splitLast?_qualifiedName hother otherPackage] at hsplit
    -- cut at the last dot, a name in a package is told from one in none
    by_cases hempty : package.isEmpty = true <;> by_cases hsame : otherPackage.isEmpty = true
    · rw [String.isEmpty_iff] at hempty hsame
      subst hempty hsame
      exact ⟨rfl, heq⟩
    · rw [if_pos hempty, if_neg hsame] at hsplit
      cases hsplit
    · rw [if_neg hempty, if_pos hsame] at hsplit
      cases hsplit
    · rw [if_neg hempty, if_neg hsame, Option.some_inj, Prod.mk.injEq, String.toList_inj,
        String.toList_inj] at hsplit
      exact ⟨hsplit.1.symm, hsplit.2.symm⟩
  · rintro ⟨rfl, rfl⟩
    rfl

end RpcBinder
