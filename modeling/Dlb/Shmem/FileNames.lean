import Dlb.Support.MaskTextSpec

/-!
# The names of the shared memories

`get_shmem_filename` writes the module, the color if there is one, and the key or else the user into a name that is cut to
`SHM_NAME_LENGTH`. `shmem_exists` and `shmem_destroy` write a path of their own.

* `filename_eq_iff`: two names are the same in three ways only, besides being those of one memory: the keys agree as far as
  they fit, a key begins with the color of the other memory, or a key of `lewi` begins as those of `lewi_async` do.
-/

namespace Dlb.Shmem

open List

/-- `SHM_NAME_LENGTH` -/
def shmNameLength : ℕ := 64

/-- The modules with a shared memory of their own. -/
inductive ShmemModule where
  | lewi | async | barrier | cpuinfo | lewiAsync | mngo | procinfo | talp
deriving DecidableEq

/-- `shmem_name` -/
def ShmemModule.name : ShmemModule → List Char
  | .lewi => "lewi".toList
  | .async => "async".toList
  | .barrier => "barrier".toList
  | .cpuinfo => "cpuinfo".toList
  | .lewiAsync => "lewi_async".toList
  | .mngo => "mngo".toList
  | .procinfo => "procinfo".toList
  | .talp => "talp".toList

/-- `"%d"` -/
def printInt (n : Int32) : List Char :=
  if n.toInt < 0 then '-' :: decimal n.toInt.natAbs else decimal n.toInt.natAbs

/-- What `snprintf` leaves of a text in a buffer of a given size. -/
def snprintf (size : ℕ) (text : List Char) : List Char := text.take (size - 1)

section Names

variable (uid : UInt32) (shmemModule : ShmemModule) (shmemKey : List Char) (shmemColor : Int32)

/-- `get_shmem_filename`. No key and the empty key are the same. -/
def getShmemFilename : List Char :=
  if shmemKey ≠ [] then
    if shmemColor.toInt ≤ 0 then
      snprintf shmNameLength ("/DLB_".toList ++ shmemModule.name ++ '_' :: shmemKey)
    else
      snprintf shmNameLength ("/DLB_".toList ++ shmemModule.name ++ '_' :: (printInt shmemColor ++ '_' :: shmemKey))
  else
    if shmemColor.toInt ≤ 0 then
      snprintf shmNameLength ("/DLB_".toList ++ shmemModule.name ++ '_' :: printInt uid.toInt32)
    else
      snprintf shmNameLength
        ("/DLB_".toList ++ shmemModule.name ++ '_' :: (printInt shmemColor ++ '_' :: printInt uid.toInt32))

/-- The path that `shmem_exists` looks for. -/
def shmemExistsPath : List Char :=
  if shmemKey ≠ [] then
    snprintf (shmNameLength * 2) ("/dev/shm/DLB_".toList ++ shmemModule.name ++ '_' :: shmemKey)
  else
    snprintf (shmNameLength * 2) ("/dev/shm/DLB_".toList ++ shmemModule.name ++ '_' :: printInt uid.toInt32)

/-- The name that `shmem_destroy` unlinks. -/
def shmemDestroyName : List Char :=
  if shmemKey ≠ [] then
    snprintf (shmNameLength * 2) ("/dev/shm/DLB_".toList ++ shmemModule.name ++ '_' :: shmemKey)
  else
    snprintf (shmNameLength * 2) ("/dev/shm/DLB_".toList ++ shmemModule.name ++ '_' :: printInt uid.toInt32)

end Names

/-! ## What the names are for -/

/-- The file that a name denotes for `shm_open` and `shm_unlink`. -/
def shmFile (name : List Char) : List Char := "/dev/shm".toList ++ name

/-- What a process gives `shmem_init`. -/
structure ShmemId where
  shmemModule : ShmemModule
  shmemKey : List Char
  shmemColor : Int32
deriving DecidableEq

namespace ShmemId

variable (uid : UInt32) (t t' : ShmemId)

def filename : List Char := getShmemFilename uid t.shmemModule t.shmemKey t.shmemColor

def effectiveColor : ℤ := max t.shmemColor.toInt 0

def Same : Prop := t.shmemModule = t'.shmemModule ∧ t.shmemKey = t'.shmemKey ∧ t.effectiveColor = t'.effectiveColor

instance : Decidable (Same t t') := inferInstanceAs (Decidable (_ ∧ _ ∧ _))

def keyText : List Char := if t.shmemKey ≠ [] then t.shmemKey else printInt uid.toInt32

def colorText : List Char := if t.shmemColor.toInt ≤ 0 then [] else printInt t.shmemColor ++ ['_']

/-- How many characters of a name there are for the key. -/
def room : ℕ := 57 - t.shmemModule.name.length - t.colorText.length

/-- The name of `t` is taken for that of another memory: the keys differ behind the end of the name; or the key begins with
the color and the key of the other one; or it does so after the rest of the module's name. -/
def Confused : Prop :=
  t.shmemModule = t'.shmemModule ∧ t.effectiveColor = t'.effectiveColor ∧ t.shmemKey ≠ t'.shmemKey ∧
      (t.keyText uid).take t.room = (t'.keyText uid).take t.room ∨
    t.shmemModule = t'.shmemModule ∧ t.effectiveColor = 0 ∧ 0 < t'.effectiveColor ∧
      (t.keyText uid).take t.room = (t'.colorText ++ t'.keyText uid).take t.room ∨
    t.shmemModule = .lewi ∧ t'.shmemModule = .lewiAsync ∧ t.effectiveColor = 0 ∧
      (t.keyText uid).take t.room = ("async_".toList ++ (t'.colorText ++ t'.keyText uid)).take t.room

instance : Decidable (Confused uid t t') := inferInstanceAs (Decidable (_ ∨ _ ∨ _))

/-! ## Texts that are cut -/

theorem take_append_inj {α : Type*} {front a b : List α} {n : ℕ} :
    (front ++ a).take n = (front ++ b).take n ↔ a.take (n - front.length) = b.take (n - front.length) := by
  rw [take_append, take_append, append_right_inj]

theorem prefix_or_prefix_of_take {α : Type*} {p q a b : List α} {n : ℕ} (hp : p.length ≤ n) (hq : q.length ≤ n)
    (h : (p ++ a).take n = (q ++ b).take n) : p <+: q ∨ q <+: p := by
  have hpn : p <+: (p ++ a).take n := prefix_take_iff.mpr ⟨prefix_append p a, hp⟩
  have hqn : q <+: (p ++ a).take n := h ▸ prefix_take_iff.mpr ⟨prefix_append q b, hq⟩
  exact prefix_or_prefix_of_prefix hpn hqn

/-! ## Modules and colors -/

def stem : List Char := t.shmemModule.name ++ '_' :: t.colorText

variable {uid t t'}

theorem printInt_of_pos {n : Int32} (hn : 0 < n.toInt) : printInt n = decimal n.toInt.natAbs := if_neg hn.not_gt

theorem colorText_of_zero (h : t.effectiveColor = 0) : t.colorText = [] := if_pos (by unfold effectiveColor at h; omega)

theorem colorText_of_pos (h : 0 < t.effectiveColor) : t.colorText = decimal t.effectiveColor.natAbs ++ ['_'] := by
  have hpos : 0 < t.shmemColor.toInt := by
    unfold effectiveColor at h
    omega
  have heq : t.effectiveColor = t.shmemColor.toInt := max_eq_left hpos.le
  rw [heq, colorText, if_neg hpos.not_ge, printInt_of_pos hpos]

theorem effectiveColor_nonneg (t : ShmemId) : 0 ≤ t.effectiveColor := le_max_right _ _

theorem colorText_congr (h : t.effectiveColor = t'.effectiveColor) : t.colorText = t'.colorText := by
  rcases (effectiveColor_nonneg t).eq_or_lt with hzero | hpos
  · rw [colorText_of_zero hzero.symm, colorText_of_zero (h ▸ hzero.symm)]
  · rw [colorText_of_pos hpos, colorText_of_pos (h ▸ hpos), h]

theorem colorText_length (t : ShmemId) : t.colorText.length ≤ 11 := by
  rcases (effectiveColor_nonneg t).eq_or_lt with hzero | hpos
  · rw [colorText_of_zero hzero.symm]
    exact Nat.zero_le _
  · have hlt : t.effectiveColor < 2 ^ 31 := max_lt t.shmemColor.toInt_lt (by decide)
    have hdigits : (decimal t.effectiveColor.natAbs).length ≤ 10 :=
      (Nat.length_toDigits_le_iff (by decide) (by decide)).mpr (by omega)
    rw [colorText_of_pos hpos, length_append, length_singleton]
    omega

theorem stem_length (t : ShmemId) : t.stem.length ≤ 22 := by
  have hname : t.shmemModule.name.length ≤ 10 := by
    cases t.shmemModule <;> decide
  have hcolor := t.colorText_length
  rw [stem, length_append, length_cons]
  omega

theorem room_eq (t : ShmemId) : t.room = 58 - t.stem.length := by
  rw [room, stem, length_append, length_cons]
  omega

theorem filename_eq (uid : UInt32) (t : ShmemId) :
    t.filename uid = "/DLB_".toList ++ (t.stem ++ t.keyText uid).take 58 := by
  have hcut : ∀ text : List Char, ("/DLB_".toList ++ text).take 63 = "/DLB_".toList ++ text.take 58 := fun text => rfl
  rw [← hcut]
  unfold filename getShmemFilename keyText stem colorText snprintf shmNameLength
  split_ifs <;> simp only [append_assoc, cons_append, nil_append]

theorem filename_eq_iff_take :
    t.filename uid = t'.filename uid ↔ (t.stem ++ t.keyText uid).take 58 = (t'.stem ++ t'.keyText uid).take 58 := by
  rw [filename_eq, filename_eq, append_right_inj]

theorem name_prefix (m m' : ShmemModule) (h : m.name ++ ['_'] <+: m'.name ++ ['_']) :
    m = m' ∨ m = .lewi ∧ m' = .lewiAsync := by
  revert h
  cases m <;> cases m' <;> decide

theorem colorText_prefix (h : t.colorText <+: t'.colorText) :
    t.effectiveColor = t'.effectiveColor ∨ t.effectiveColor = 0 ∧ 0 < t'.effectiveColor := by
  rcases (effectiveColor_nonneg t).eq_or_lt with hzero | hpos
  · rcases (effectiveColor_nonneg t').eq_or_lt with hzero' | hpos'
    · exact .inl (hzero.symm.trans hzero')
    · exact .inr ⟨hzero.symm, hpos'⟩
  · rw [colorText_of_pos hpos] at h
    rcases (effectiveColor_nonneg t').eq_or_lt with hzero' | hpos'
    · rw [colorText_of_zero hzero'.symm, prefix_nil] at h
      exact absurd h (append_ne_nil_of_right_ne_nil _ (cons_ne_nil _ _))
    · rw [colorText_of_pos hpos'] at h
      refine .inl ?_
      rcases prefix_concat_iff.mp h with hsame | hinside
      · have hdecimal := append_cancel_right hsame
        have hvalue := congrArg (Nat.ofDigitChars 10 · 0) hdecimal
        simp only [decimal, Nat.ofDigitChars_ten_toDigits] at hvalue
        omega
      · exact absurd (hinside.subset (mem_append_right _ mem_cons_self)) Nat.underscore_not_in_toDigits

theorem colorText_cons (h : 0 < t.effectiveColor) : ∃ d ds, t.colorText = d :: ds ∧ d.isDigit := by
  obtain ⟨d, ds, heq, hdigit⟩ := decimal_cons t.effectiveColor.natAbs
  rw [colorText_of_pos h, heq]
  exact ⟨d, ds ++ ['_'], rfl, hdigit⟩

/-- **Stems that begin each other** are those of one module, with the same color or one of them without, or those of `lewi`
without a color and of `lewi_async`. -/
theorem stem_prefix (h : t.stem <+: t'.stem) :
    t.shmemModule = t'.shmemModule ∧
        (t.effectiveColor = t'.effectiveColor ∨ t.effectiveColor = 0 ∧ 0 < t'.effectiveColor) ∨
      t.shmemModule = .lewi ∧ t'.shmemModule = .lewiAsync ∧ t.effectiveColor = 0 := by
  have hstem : ∀ t : ShmemId, t.stem = (t.shmemModule.name ++ ['_']) ++ t.colorText := fun t => by
    rw [stem, append_assoc]
    rfl
  have hasync : ShmemModule.lewiAsync.name ++ ['_'] = (ShmemModule.lewi.name ++ ['_']) ++ "async_".toList := by decide
  rw [hstem, hstem] at h
  have hmodules := prefix_or_prefix_of_prefix ((prefix_append _ _).trans h)
    (prefix_append (t'.shmemModule.name ++ ['_']) t'.colorText)
  rcases hmodules.imp ( name_prefix _ _) ( name_prefix _ _) with (hsame | ⟨hlewi, hlewi'⟩) | hsame | ⟨hlewi', hlewi⟩
  · rw [hsame, prefix_append_right_inj] at h
    exact .inl ⟨hsame, colorText_prefix h⟩
  · refine .inr ⟨hlewi, hlewi', ?_⟩
    rw [hlewi, hlewi', hasync, append_assoc _ _ t'.colorText, prefix_append_right_inj] at h
    by_contra hcolor
    obtain ⟨d, ds, heq, hdigit⟩ := colorText_cons ((effectiveColor_nonneg t).lt_of_ne' hcolor)
    rw [heq] at h
    exact absurd ((cons_prefix_cons.mp h).1 ▸ hdigit) (by decide)
  · rw [← hsame, prefix_append_right_inj] at h
    exact .inl ⟨hsame.symm, colorText_prefix h⟩
  · rw [hlewi, hlewi', hasync, append_assoc _ _ t.colorText, prefix_append_right_inj] at h
    rcases (effectiveColor_nonneg t').eq_or_lt with hzero | hpos
    · rw [colorText_of_zero hzero.symm, prefix_nil] at h
      exact absurd h (append_ne_nil_of_left_ne_nil (by decide) _)
    · obtain ⟨d, ds, heq, hdigit⟩ := colorText_cons hpos
      rw [heq] at h
      exact absurd ((cons_prefix_cons.mp h).1.symm ▸ hdigit) (by decide)

theorem take_stem (d : List Char) (hstem : t'.stem = t.stem ++ d) :
    t.filename uid = t'.filename uid ↔ (t.keyText uid).take t.room = (d ++ t'.keyText uid).take t.room := by
  rw [filename_eq_iff_take, hstem, append_assoc, take_append_inj, room_eq]

theorem stem_append (hmodule : t.shmemModule = t'.shmemModule) (hcolor : t.effectiveColor = 0) :
    t'.stem = t.stem ++ t'.colorText := by
  rw [stem, stem, hmodule, colorText_of_zero hcolor, append_assoc]
  rfl

theorem stem_append_async (hlewi : t.shmemModule = .lewi) (hlewi' : t'.shmemModule = .lewiAsync) (hcolor : t.effectiveColor = 0) :
    t'.stem = t.stem ++ ("async_".toList ++ t'.colorText) := by
  rw [stem, stem, hlewi, hlewi', colorText_of_zero hcolor]
  rfl

theorem Same.filename (h : t.Same t') : t.filename uid = t'.filename uid := by
  obtain ⟨hmodule, hkey, hcolor⟩ := h
  rw [filename_eq_iff_take, stem, stem, keyText, keyText, hmodule, hkey, colorText_congr hcolor]

theorem Confused.filename (h : Confused uid t t') : t.filename uid = t'.filename uid := by
  rcases h with ⟨hmodule, hcolor, -, htake⟩ | ⟨hmodule, hzero, -, htake⟩ | ⟨hlewi, hlewi', hzero, htake⟩
  · have hstem : t'.stem = t.stem ++ [] := by rw [stem, stem, hmodule, colorText_congr hcolor, append_nil]
    exact (take_stem [] hstem).mpr htake
  · exact (take_stem _ (stem_append hmodule hzero)).mpr htake
  · rw [← append_assoc] at htake
    exact (take_stem _ (stem_append_async hlewi hlewi' hzero)).mpr htake

theorem Confused.not_same (h : Confused uid t t') : ¬t.Same t' := by
  rintro ⟨hmodule, hkey, hcolor⟩
  rcases h with ⟨-, -, hne, -⟩ | ⟨-, hzero, hpos, -⟩ | ⟨hlewi, hlewi', -, -⟩
  · exact hne hkey
  · omega
  · rw [hlewi, hlewi'] at hmodule
    cases hmodule

theorem same_or_confused (hstem : t.stem <+: t'.stem) (h : t.filename uid = t'.filename uid) :
    t.Same t' ∨ Confused uid t t' := by
  rcases stem_prefix hstem with ⟨hmodule, hcolor | ⟨hzero, hpos⟩⟩ | ⟨hlewi, hlewi', hzero⟩
  · by_cases hkey : t.shmemKey = t'.shmemKey
    · exact .inl ⟨hmodule, hkey, hcolor⟩
    · have hsame : t'.stem = t.stem ++ [] := by rw [stem, stem, hmodule, colorText_congr hcolor, append_nil]
      exact .inr (.inl ⟨hmodule, hcolor, hkey, (take_stem [] hsame).mp h⟩)
  · exact .inr (.inr (.inl ⟨hmodule, hzero, hpos, (take_stem _ (stem_append hmodule hzero)).mp h⟩))
  · refine .inr (.inr (.inr ⟨hlewi, hlewi', hzero, ?_⟩))
    exact (take_stem _ (stem_append_async hlewi hlewi' hzero)).mp h

theorem filename_eq_iff (uid : UInt32) (t t' : ShmemId) :
    t.filename uid = t'.filename uid ↔ t.Same t' ∨ Confused uid t t' ∨ Confused uid t' t := by
  constructor
  · intro h
    have hstems := prefix_or_prefix_of_take (t.stem_length.trans (by decide)) (t'.stem_length.trans (by decide))
      (filename_eq_iff_take.mp h)
    rcases hstems with hstem | hstem
    · exact (same_or_confused hstem h).imp_right .inl
    · rcases same_or_confused hstem h.symm with ⟨hmodule, hkey, hcolor⟩ | hconfused
      · exact .inl ⟨hmodule.symm, hkey.symm, hcolor.symm⟩
      · exact .inr (.inr hconfused)
  · rintro (hsame | hconfused | hconfused)
    · exact hsame.filename
    · exact hconfused.filename
    · exact hconfused.filename.symm

end ShmemId

/-! ## The three functions -/

variable {uid : UInt32} {shmemModule : ShmemModule} {shmemKey : List Char}

/-- The name of a memory without a color, before it is cut. -/
def plainName (uid : UInt32) (shmemModule : ShmemModule) (shmemKey : List Char) : List Char :=
  "/DLB_".toList ++ (shmemModule.name ++ '_' :: (⟨shmemModule, shmemKey, 0⟩ : ShmemId).keyText uid)

theorem plainName_length (uid : UInt32) (shmemModule : ShmemModule) (shmemKey : List Char) :
    (plainName uid shmemModule shmemKey).length =
      shmemModule.name.length + ((⟨shmemModule, shmemKey, 0⟩ : ShmemId).keyText uid).length + 6 := by
  have hslash : "/DLB_".toList.length = 5 := by decide
  rw [plainName, length_append, length_append, length_cons, hslash]
  omega

theorem filename_colorless (uid : UInt32) (shmemModule : ShmemModule) (shmemKey : List Char) :
    getShmemFilename uid shmemModule shmemKey 0 = (plainName uid shmemModule shmemKey).take 63 := by
  have hcolor : (0 : Int32).toInt ≤ 0 := by decide
  unfold getShmemFilename plainName ShmemId.keyText
  split
  · rw [append_assoc]
    rfl
  · rw [append_assoc]
    rfl

theorem existsPath_eq (uid : UInt32) (shmemModule : ShmemModule) (shmemKey : List Char) :
    shmemExistsPath uid shmemModule shmemKey = shmFile ((plainName uid shmemModule shmemKey).take 119) := by
  have hpath : "/dev/shm/DLB_".toList = "/dev/shm".toList ++ "/DLB_".toList := by decide
  have hcut : ∀ text : List Char, snprintf (shmNameLength * 2) ("/dev/shm".toList ++ text) = shmFile (text.take 119) :=
    fun text => rfl
  unfold shmemExistsPath plainName ShmemId.keyText
  split
  · rfl
  · rfl

theorem shmFile_inj {name name' : List Char} : shmFile name = shmFile name' ↔ name = name' :=
  append_right_inj "/dev/shm".toList

theorem take_eq_take_iff_length (text : List Char) : text.take 119 = text.take 63 ↔ text.length ≤ 63 := by
  rw [take_eq_take_iff]
  omega

theorem shmem_exists_iff (uid : UInt32) (shmemModule : ShmemModule) (shmemKey : List Char) :
    shmemExistsPath uid shmemModule shmemKey = shmFile (getShmemFilename uid shmemModule shmemKey 0) ↔
      shmemModule.name.length + ((⟨shmemModule, shmemKey, 0⟩ : ShmemId).keyText uid).length ≤ 57 := by
  rw [existsPath_eq, filename_colorless, shmFile_inj, take_eq_take_iff_length, plainName_length]
  omega

theorem shmem_destroy_ne (uid : UInt32) (shmemModule : ShmemModule) (shmemKey : List Char) :
    shmFile (shmemDestroyName uid shmemModule shmemKey) ≠ shmFile (getShmemFilename uid shmemModule shmemKey 0) := by
  have hpath : shmemDestroyName uid shmemModule shmemKey = shmemExistsPath uid shmemModule shmemKey := rfl
  rw [hpath, existsPath_eq, filename_colorless, ne_eq, shmFile_inj]
  -- the second characters are `d` and `D`
  intro h
  exact absurd (cons.inj (cons.inj h).2).1 (by decide)

/-- **The names of the shared memories**: which pairs of memories they tell apart, that `shmem_exists` agrees with
`shmem_init` exactly on the names that are not cut, and that `shmem_destroy` never does. -/
theorem shmem_names_iff (uid : UInt32) (t t' : ShmemId) :
    ((t.filename uid = t'.filename uid → t.Same t') ↔ ¬ShmemId.Confused uid t t' ∧ ¬ShmemId.Confused uid t' t) ∧
      (shmemExistsPath uid t.shmemModule t.shmemKey = shmFile (getShmemFilename uid t.shmemModule t.shmemKey 0) ↔
        t.shmemModule.name.length + (t.keyText uid).length ≤ 57) ∧
      shmFile (shmemDestroyName uid t.shmemModule t.shmemKey) ≠
        shmFile (getShmemFilename uid t.shmemModule t.shmemKey 0) := by
  refine ⟨?_, shmem_exists_iff uid _ _, shmem_destroy_ne uid _ _⟩
  rw [ShmemId.filename_eq_iff]
  constructor
  · intro h
    refine ⟨fun hconfused => hconfused.not_same (h (.inr (.inl hconfused))), fun hconfused => ?_⟩
    obtain ⟨hmodule, hkey, hcolor⟩ := h (.inr (.inr hconfused))
    exact hconfused.not_same ⟨hmodule.symm, hkey.symm, hcolor.symm⟩
  · rintro ⟨hnot, hnot'⟩ (hsame | hconfused | hconfused)
    · exact hsame
    · exact absurd hconfused hnot
    · exact absurd hconfused hnot'

/-- `lewi` with a key that begins like the rest of `lewi_async`. -/
theorem lewi_and_lewiAsync :
    (⟨.lewi, "async_x".toList, 0⟩ : ShmemId).filename 1000 = (⟨.lewiAsync, "x".toList, 0⟩ : ShmemId).filename 1000 ∧
      ¬(⟨.lewi, "async_x".toList, 0⟩ : ShmemId).Same ⟨.lewiAsync, "x".toList, 0⟩ := by
  decide

end Dlb.Shmem
