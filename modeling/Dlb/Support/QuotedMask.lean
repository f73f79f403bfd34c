import Dlb.Support.MaskTextSpec

/-!
# Masks as quoted text

`mu_get_quoted_mask` writes what `mu_to_str` does, between quotes and into a buffer of a given size. An interval that does
not fit is left out, and so is the closing quote.

* `muGetQuotedMask_of_fits`: the whole text, if it fits with both quotes;
* `muGetQuotedMask_cases`: what is written in any case.
-/

namespace Dlb

open List

section Printer

variable (S : System) (mask : CpuSet) (namelen : ℕ)

/-- The separator in front of an entry that is not the first one. -/
def addSeparator (str : List Char) (entryMade : Bool) : List Char :=
  if entryMade ∧ str.length + 1 < namelen then str ++ [','] else str

/-- The loop of `mu_get_quoted_mask` from `cpuid` on. -/
def quotedFrom (str : List Char) (entryMade : Bool) (cpuid : ℕ) : List Char :=
  let distance := intervalDistance S mask cpuid
  let entry := element cpuid distance
  let str := addSeparator namelen str entryMade
  if str.length + entry.length < namelen then
    match _h : muGetNextCpu S mask ((cpuid + distance : ℕ) : ℤ) with
    | some next => quotedFrom (str ++ entry) true next
    | none => str ++ entry
  else
    -- the interval is tried again from its next CPU on
    match _h : muGetNextCpu S mask (cpuid : ℤ) with
    | some next => quotedFrom str true next
    | none => str
termination_by S.bits - cpuid
decreasing_by
  · have := muGetNextCpu_after S _h
    omega
  · have := muGetNextCpu_after S _h
    omega

/-- `mu_get_quoted_mask`, on a buffer that holds `str`. -/
def muGetQuotedMask (str : List Char) : List Char :=
  if namelen < 2 then str
  else
    let str := match muGetFirstCpu S mask with
      | some cpuid => quotedFrom S mask namelen ['"'] false cpuid
      | none => ['"']
    if str.length + 1 < namelen then str ++ ['"'] else str

end Printer

variable {S : System} {mask : CpuSet} {namelen : ℕ}

/-- What `addSeparator` adds where it fits. -/
def separator (entryMade : Bool) : List Char := if entryMade then [','] else []

theorem addSeparator_of_fits {str : List Char} {entryMade : Bool}
    (h : str.length + (separator entryMade).length < namelen) :
    addSeparator namelen str entryMade = str ++ separator entryMade := by
  cases entryMade with
  | true => exact if_pos ⟨rfl, h⟩
  | false => exact (if_neg nofun).trans (append_nil _).symm

theorem elementsFrom_separator (entryMade : Bool) (cpuid : ℕ) :
    elementsFrom S mask entryMade cpuid = separator entryMade ++ (element cpuid (intervalDistance S mask cpuid) ++
      match muGetNextCpu S mask (cpuid + intervalDistance S mask cpuid : ℕ) with
      | some next => elementsFrom S mask true next
      | none => []) := elementsFrom_eq entryMade cpuid

theorem next_fits {str : List Char} {entryMade : Bool} {cpuid : ℕ}
    (h : str.length + (elementsFrom S mask entryMade cpuid).length < namelen) :
    addSeparator namelen str entryMade = str ++ separator entryMade ∧
      (addSeparator namelen str entryMade).length + (element cpuid (intervalDistance S mask cpuid)).length < namelen := by
  rw [elementsFrom_separator, length_append, length_append] at h
  have hsep : addSeparator namelen str entryMade = str ++ separator entryMade := addSeparator_of_fits (by omega)
  refine ⟨hsep, ?_⟩
  rw [hsep, length_append]
  omega

theorem quotedFrom_of_fits {str : List Char} {entryMade : Bool} {cpuid : ℕ}
    (h : str.length + (elementsFrom S mask entryMade cpuid).length < namelen) :
    quotedFrom S mask namelen str entryMade cpuid = str ++ elementsFrom S mask entryMade cpuid := by
  obtain ⟨hsep, hnext⟩ := next_fits h
  fun_induction quotedFrom S mask namelen str entryMade cpuid with
  | case1 str entryMade cpuid distance entry str' hfits next hcpu ih =>
    have htext : str ++ elementsFrom S mask entryMade cpuid = str' ++ entry ++ elementsFrom S mask true next := by
      rw [elementsFrom_separator, hcpu, ← append_assoc, ← hsep, append_assoc]
    have hlen : (str' ++ entry).length + (elementsFrom S mask true next).length < namelen := by
      rw [← length_append, ← htext, length_append]
      exact h
    rw [htext]
    exact ih hlen (next_fits hlen).1 (next_fits hlen).2
  | case2 str entryMade cpuid distance entry str' hfits hcpu =>
    rw [elementsFrom_separator, hcpu, append_nil, ← append_assoc, ← hsep]
  | case3 str entryMade cpuid distance entry str' hfits next hcpu ih => exact absurd hnext hfits
  | case4 str entryMade cpuid distance entry str' hfits hcpu => exact absurd hnext hfits

theorem addSeparator_prefix (namelen : ℕ) (str : List Char) (entryMade : Bool) :
    ∃ body, addSeparator namelen str entryMade = str ++ body ∧ ∀ x ∈ body, isRangeChar x := by
  unfold addSeparator
  split
  · exact ⟨[','], rfl, fun x hx => mem_singleton.mp hx ▸ rfl⟩
  · exact ⟨[], (append_nil str).symm, nofun⟩

theorem quotedFrom_extends (str : List Char) (entryMade : Bool) (cpuid : ℕ) :
    ∃ body, quotedFrom S mask namelen str entryMade cpuid = str ++ body ∧ ∀ x ∈ body, isRangeChar x := by
  have happend : ∀ {a b : List Char}, (∀ x ∈ a, isRangeChar x) → (∀ x ∈ b, isRangeChar x) →
      ∀ x ∈ a ++ b, isRangeChar x := fun ha hb x hx => (mem_append.mp hx).elim (ha x) (hb x)
  fun_induction quotedFrom S mask namelen str entryMade cpuid with
  | case1 str entryMade cpuid distance entry str' hfits next hcpu ih =>
    obtain ⟨sep, hsep, hchars⟩ := addSeparator_prefix namelen str entryMade
    obtain ⟨body, hbody, hrest⟩ := ih
    refine ⟨sep ++ (entry ++ body), ?_, happend hchars (happend (fun x hx => mem_element hx) hrest)⟩
    rw [hbody, ← append_assoc, ← hsep, ← append_assoc]
  | case2 str entryMade cpuid distance entry str' hfits hcpu =>
    obtain ⟨sep, hsep, hchars⟩ := addSeparator_prefix namelen str entryMade
    refine ⟨sep ++ entry, ?_, happend hchars fun x hx => mem_element hx⟩
    rw [← append_assoc, ← hsep]
  | case3 str entryMade cpuid distance entry str' hfits next hcpu ih =>
    obtain ⟨sep, hsep, hchars⟩ := addSeparator_prefix namelen str entryMade
    obtain ⟨body, hbody, hrest⟩ := ih
    refine ⟨sep ++ body, ?_, happend hchars hrest⟩
    rw [hbody, ← append_assoc, ← hsep]
  | case4 str entryMade cpuid distance entry str' hfits hcpu => exact addSeparator_prefix namelen str entryMade

def maskText (S : System) (mask : CpuSet) : List Char := insideBrackets (muToStr S mask)

theorem maskText_eq : maskText S mask =
    match muGetFirstCpu S mask with
    | some cpuid => elementsFrom S mask false cpuid
    | none => [] := by
  exact dropLast_concat

theorem muGetQuotedMask_of_fits (str : List Char) (h : (maskText S mask).length + 2 < namelen) :
    muGetQuotedMask S mask namelen str = '"' :: (maskText S mask ++ ['"']) := by
  have hloop : (match muGetFirstCpu S mask with
      | some cpuid => quotedFrom S mask namelen ['"'] false cpuid
      | none => ['"']) = '"' :: maskText S mask := by
    rw [maskText_eq] at h ⊢
    cases hfirst : muGetFirstCpu S mask with
    | none => rfl
    | some cpuid =>
      rw [hfirst] at h
      exact quotedFrom_of_fits (by dsimp only at h; rw [length_singleton]; omega)
  rw [muGetQuotedMask, if_neg (by omega), hloop]
  exact if_pos (by rw [length_cons]; omega)

theorem muGetQuotedMask_cases (S : System) (mask : CpuSet) (str : List Char) (hlen : 2 ≤ namelen) :
    ∃ body, (∀ x ∈ body, isRangeChar x) ∧
      (body.length + 2 < namelen ∧ muGetQuotedMask S mask namelen str = '"' :: (body ++ ['"']) ∨
        ¬body.length + 2 < namelen ∧ muGetQuotedMask S mask namelen str = '"' :: body) := by
  obtain ⟨body, hloop, hchars⟩ : ∃ body, (match muGetFirstCpu S mask with
      | some cpuid => quotedFrom S mask namelen ['"'] false cpuid
      | none => ['"']) = '"' :: body ∧ ∀ x ∈ body, isRangeChar x := by
    cases muGetFirstCpu S mask with
    | none => exact ⟨[], rfl, nofun⟩
    | some cpuid => exact quotedFrom_extends ['"'] false cpuid
  refine ⟨body, hchars, ?_⟩
  rw [muGetQuotedMask, if_neg (by omega), hloop]
  dsimp only
  split
  · rename_i hclosed
    exact .inl ⟨hclosed, rfl⟩
  · rename_i hclosed
    exact .inr ⟨hclosed, rfl⟩

end Dlb
