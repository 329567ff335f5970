import TodoIndex.Proofs.Extension
import TodoIndex.Readers

/-! # Who has which extension

The claims on extensions stand in the order in which they were made, and a file goes to the first
one that lists its extension in some spelling.  An extension that is held is found again unless it
was written with a blank behind its dots.
-/

namespace TodoIndex

open Registry (Plugin PluginsDocument)

variable {e other : String}

namespace Claim

/-! ## Extensions of a claim -/

/-- Some extension of a list is a spelling of another one. -/
def Lists (extensions : List String) (e : String) : Prop :=
  ∃ written ∈ extensions, Extension.normal written = e

instance (extensions : List String) (e : String) : Decidable (Lists extensions e) :=
  inferInstanceAs (Decidable (∃ written ∈ extensions, Extension.normal written = e))

theorem mem_insertExtension {set : List String} :
    e ∈ insertExtension other set ↔ e = other ∨ e ∈ set := by
  induction set with
  | nil => simp [insertExtension]
  | cons head set ih =>
      unfold insertExtension
      split
      · next heq => simp [heq]
      · split
        · simp
        · rw [List.mem_cons, ih, List.mem_cons]
          exact or_left_comm

theorem mem_foldl_insertExtension {extensions set : List String} :
    e ∈ extensions.foldl (fun set extension => insertExtension extension set) set ↔
      e ∈ extensions ∨ e ∈ set := by
  induction extensions generalizing set with
  | nil => simp
  | cons head extensions ih =>
      rw [List.foldl_cons, ih, mem_insertExtension, List.mem_cons]
      exact or_left_comm.trans or_assoc.symm

theorem mem_normalSet {extensions : List String} :
    e ∈ normalSet extensions ↔ Lists extensions e ∧ e ≠ "" := by
  rw [normalSet, mem_foldl_insertExtension, List.mem_filter, List.mem_map]
  simp [Lists]

theorem handles_make {reader : Reader} {extensions : List String} (hnormal : Extension.normal e = e)
    (hne : e ≠ "") :
    (make reader extensions).handles (Extension.normal e) = decide (Lists extensions e) := by
  rw [handles, hnormal, Bool.eq_iff_iff, List.contains_iff_mem, decide_eq_true_iff]
  exact mem_normalSet.trans (and_iff_left hne)

end Claim

namespace Readers

open Claim (Lists)

/-! ## First claims -/

/-- The claim of a language that is switched on and lists an extension. -/
def languageClaim? (settings : Settings) (e : String) (language : Language) : Option Claim :=
  match settings.languages.get? language.key with
  | some s =>
      if s.enabled ∧ Lists s.extensions e then some (.make (.builtIn language) s.extensions)
      else .none
  | .none => .none

/-- The claim of a helper that has a command and lists an extension. -/
def helperClaim? (e : String) (plugin : Plugin) : Option Claim :=
  if ¬plugin.command.isEmpty ∧ Lists plugin.extensions e then
    some (.make (.helper plugin.command) plugin.extensions)
  else .none

/-- The claim that an extension goes to: the first one of a language, in the order of the languages,
and without any the first one of a helper, in the order of the registry. -/
def claimFor? (settings : Settings) (plugins : List Plugin) (e : String) : Option Claim :=
  (Language.all.findSome? (languageClaim? settings e)).or (plugins.findSome? (helperClaim? e))

/-- The helpers that a registry lists; one that cannot be read lists none. -/
def listed : Except RegistryError PluginsDocument → List Plugin
  | .ok document => document.plugins
  | .error _ => []

variable {settings : Settings} {r : Readers}

theorem claims_foldl {α : Type} {f : Readers → α → Readers} {g : α → List Claim}
    (h : ∀ r a, (f r a).claims = r.claims ++ g a) (r : Readers) (items : List α) :
    (items.foldl f r).claims = r.claims ++ items.flatMap g := by
  induction items generalizing r with
  | nil => simp
  | cons a items ih => rw [List.foldl_cons, ih, h, List.flatMap_cons, List.append_assoc]

def languageClaims (settings : Settings) (language : Language) : List Claim :=
  match settings.languages.get? language.key with
  | some s => if s.enabled then [.make (.builtIn language) s.extensions] else []
  | .none => []

theorem claims_addLanguage (r : Readers) (language : Language) :
    (addLanguage settings r language).value.claims =
      r.claims ++ languageClaims settings language := by
  unfold addLanguage languageClaims
  cases settings.languages.get? language.key with
  | none => exact (List.append_nil _).symm
  | some s =>
      dsimp only
      cases s.enabled with
      | true => rfl
      | false => exact (List.append_nil _).symm

theorem claims_builtIn : (builtIn settings).value.claims =
    Language.all.flatMap (languageClaims settings) := by
  rw [builtIn, Noted.value_foldlM, claims_foldl claims_addLanguage]
  rfl

theorem claims_addCommand (r : Readers) (command : Path × List String) :
    (addCommand r command).value.claims =
      r.claims ++ [.make (.helper command.1) command.2] := rfl

theorem claims_ofRegistry (plugins : Except RegistryError PluginsDocument) :
    (ofRegistry settings plugins).value.claims =
      Language.all.flatMap (languageClaims settings) ++
        ((listed plugins).filter (!·.command.isEmpty)).map fun plugin =>
          .make (.helper plugin.command) plugin.extensions := by
  cases plugins with
  | error e =>
      rw [ofRegistry, Noted.value_bind]
      exact claims_builtIn.trans (List.append_nil _).symm
  | ok document =>
      rw [ofRegistry, Noted.value_bind]
      dsimp only
      rw [Noted.value_foldlM, claims_foldl claims_addCommand, claims_builtIn, ← List.map_eq_flatMap,
        PluginsDocument.commands, List.map_map]
      rfl

theorem find?_languageClaims (hnormal : Extension.normal e = e) (hne : e ≠ "")
    (language : Language) :
    (languageClaims settings language).find? (·.handles (Extension.normal e)) =
      languageClaim? settings e language := by
  unfold languageClaims languageClaim?
  split
  · next s _ =>
    cases henabled : s.enabled
    · simp
    · simp [List.find?_singleton, Claim.handles_make hnormal hne]
  · rfl

theorem find?_helperClaims (hnormal : Extension.normal e = e) (hne : e ≠ "")
    (plugins : List Plugin) :
    ((plugins.filter (!·.command.isEmpty)).map fun plugin =>
        Claim.make (.helper plugin.command) plugin.extensions).find?
          (·.handles (Extension.normal e)) =
      plugins.findSome? (helperClaim? e) := by
  induction plugins with
  | nil => rfl
  | cons plugin plugins ih =>
      rw [List.findSome?_cons, helperClaim?, List.filter_cons]
      cases hempty : plugin.command.isEmpty
      · simp only [Bool.not_false, if_true, List.map_cons, List.find?_cons,
          Claim.handles_make hnormal hne, ih]
        by_cases hlists : Lists plugin.extensions e <;> simp [hlists]
      · simp [ih]

theorem claimOfPath?_ofRegistry (settings : Settings)
    (plugins : Except RegistryError PluginsDocument) (path : Path) :
    (ofRegistry settings plugins).value.claimOfPath? path =
      (Extension.ofPath? path).bind (claimFor? settings (listed plugins)) := by
  rw [claimOfPath?]
  cases hpath : Extension.ofPath? path with
  | none => rfl
  | some e =>
      obtain ⟨hnormal, hne⟩ := Extension.normal_of_ofPath? hpath
      rw [Option.bind_some, Option.bind_some, claimOf?, claims_ofRegistry, List.find?_append,
        find?_helperClaims hnormal hne, List.find?_flatMap, claimFor?]
      simp only [find?_languageClaims hnormal hne]

/-- **Languages before helpers, and the first of each.**  Whatever the settings and the registry of
helpers say, a file goes to the first language that is switched on and lists its extension in some
spelling, else to the first helper with a command that does, else to nobody; so does no file without
an extension go to anybody.  A registry that cannot be read is as good as an empty one. -/
theorem first_claim_has_the_file (settings : Settings)
    (plugins : Except RegistryError PluginsDocument) (path : Path) :
    (ofRegistry settings plugins).value.claimOfPath? path =
        (Extension.ofPath? path).bind (claimFor? settings (listed plugins)) ∧
      ∀ unreadable : RegistryError,
        (ofRegistry settings (.error unreadable)).value.claimOfPath? path =
          (ofRegistry settings (.ok .empty)).value.claimOfPath? path :=
  ⟨claimOfPath?_ofRegistry settings plugins path, fun unreadable => by
    rw [claimOfPath?_ofRegistry, claimOfPath?_ofRegistry]
    rfl⟩

/-! ## What is built in -/

/-- An extension that no earlier claim lists is built in if the first claim that lists it is a
language's. -/
theorem mem_builtInBehind {seen : List String} {claims : List Claim} :
    e ∈ builtInBehind seen claims ↔
      e ∉ seen ∧ ∃ c, claims.find? (·.handles e) = some c ∧ c.reader.isBuiltIn = true := by
  induction claims generalizing seen with
  | nil => simp [builtInBehind]
  | cons claim claims ih =>
      rw [builtInBehind, List.mem_append, ih, List.mem_append, List.find?_cons]
      cases hhandles : claim.handles e with
      | true =>
          have hlisted : e ∈ claim.extensions := List.contains_iff_mem.mp hhandles
          cases hbuiltIn : claim.reader.isBuiltIn <;> simp [hbuiltIn, hlisted]
      | false =>
          have hlisted : e ∉ claim.extensions := fun hmem =>
            Bool.false_ne_true (hhandles.symm.trans (List.contains_iff_mem.mpr hmem))
          cases claim.reader.isBuiltIn <;> simp [hlisted]

/-- **What is built in is what a language has.**  Whatever claims were added in whatever order, the
extension of a file is among the built-in ones if and only if the claim that the file goes to is a
language's. -/
theorem built_in_iff_claimed_by_language (r : Readers) (path : Path) {e : String}
    (hpath : Extension.ofPath? path = some e) :
    e ∈ r.builtInExtensions ↔
      ∃ c, r.claimOfPath? path = some c ∧ c.reader.isBuiltIn = true := by
  obtain ⟨hnormal, -⟩ := Extension.normal_of_ofPath? hpath
  rw [builtInExtensions, mem_builtInBehind, claimOfPath?, hpath, Option.bind_some, claimOf?,
    hnormal]
  exact and_iff_right List.not_mem_nil

/-- A helper that comes before a language it overlaps with, and one that comes after it. -/
def overlapping : Readers :=
  ((none.addHelper (.ofString "/bin/first") [".PY", "rb"]).add
    (.make (.builtIn .python) ["py", " .pyi"])).addHelper (.ofString "/bin/last") ["pyi"]

theorem built_in_iff_claimed_by_language_overlapping :
    Extension.ofPath? (.ofString "/a/b.Py") = some "py" ∧ "py" ∉ overlapping.builtInExtensions ∧
      Extension.ofPath? (.ofString "/a/b.pyi") = some "pyi" ∧
      ∃ c, overlapping.claimOfPath? (.ofString "/a/b.pyi") = some c ∧
        c.reader.isBuiltIn = true := by
  have hpy : Extension.ofPath? (.ofString "/a/b.Py") = some "py" := by decide +kernel
  have hpyi : Extension.ofPath? (.ofString "/a/b.pyi") = some "pyi" := by decide +kernel
  refine ⟨hpy, ?_, hpyi, ?_⟩
  · rw [built_in_iff_claimed_by_language overlapping _ hpy]
    decide +kernel
  · rw [← built_in_iff_claimed_by_language overlapping _ hpyi]
    decide +kernel

/-! ## What is held and what is found -/

/-- The readers that settings and a registry of helpers give, and those that more helpers make of
them. -/
inductive Built : Readers → Prop where
  | builtIn (settings : Settings) : Built (builtIn settings).value
  | ofRegistry (settings : Settings) (plugins : Except RegistryError PluginsDocument) :
      Built (ofRegistry settings plugins).value
  | addHelper {r : Readers} (command : Path) (extensions : List String) :
      Built r → Built (r.addHelper command extensions)

theorem exists_make_of_languageClaims {language : Language} {c : Claim}
    (h : c ∈ languageClaims settings language) :
    ∃ reader extensions, c = .make reader extensions := by
  unfold languageClaims at h
  split at h
  · split at h
    · exact ⟨_, _, List.mem_singleton.mp h⟩
    · cases h
  · cases h

/-- Every claim was made on extensions as somebody wrote them. -/
theorem Built.exists_make (h : Built r) {c : Claim} (hc : c ∈ r.claims) :
    ∃ reader extensions, c = .make reader extensions := by
  induction h with
  | builtIn settings =>
      rw [claims_builtIn] at hc
      obtain ⟨language, -, hlanguage⟩ := List.mem_flatMap.mp hc
      exact exists_make_of_languageClaims hlanguage
  | ofRegistry settings plugins =>
      rw [claims_ofRegistry, List.mem_append] at hc
      rcases hc with hc | hc
      · obtain ⟨language, -, hlanguage⟩ := List.mem_flatMap.mp hc
        exact exists_make_of_languageClaims hlanguage
      · obtain ⟨plugin, -, rfl⟩ := List.mem_map.mp hc
        exact ⟨_, _, rfl⟩
  | addHelper command extensions _ ih =>
      rcases List.mem_append.mp hc with hc | hc
      · exact ih hc
      · exact ⟨_, _, List.mem_singleton.mp hc⟩

/-- What a claim holds is the normal form of something. -/
theorem Built.exists_written (h : Built r) {c : Claim} (hc : c ∈ r.claims)
    (he : e ∈ c.extensions) : ∃ written, Extension.normal written = e := by
  obtain ⟨reader, extensions, rfl⟩ := h.exists_make hc
  obtain ⟨⟨written, -, hwritten⟩, -⟩ := Claim.mem_normalSet.mp he
  exact ⟨written, hwritten⟩

theorem holds_of_claimOf? {c : Claim} (h : r.claimOf? e = some c) :
    Extension.normal e ∈ c.extensions := by
  rw [claimOf?] at h
  have hhandles := List.find?_some h
  exact List.contains_iff_mem.mp hhandles

theorem isSome_claimOf?_iff :
    (r.claimOf? e).isSome = true ↔ ∃ c ∈ r.claims, Extension.normal e ∈ c.extensions := by
  rw [claimOf?, List.find?_isSome]
  simp only [Claim.handles, List.contains_iff_mem]

/-- **When what is held is found.**  The normal form of an extension stays the same in a second turn
if and only if no blank follows its leading dots.  So of the extensions that any claim of built
readers holds those are in normal form that begin with no blank, and a look-up for one of these
finds a claim that holds it.  A look-up for another one looks for its normal form, which is not it,
and finds a claim just if there is one that holds that. -/
theorem held_is_final_iff (hbuilt : Built r) :
    (∀ written, Extension.normal (Extension.normal written) = Extension.normal written ↔
      ¬Extension.BlankBehindDots written.toList) ∧
    ∀ c ∈ r.claims, ∀ e ∈ c.extensions,
      (Extension.normal e = e ↔ ¬Extension.BeginsBlank e.toList) ∧
      (¬Extension.BeginsBlank e.toList →
        ∃ found, r.claimOf? e = some found ∧ e ∈ found.extensions) ∧
      ((r.claimOf? e).isSome = true ↔
        ∃ other ∈ r.claims, Extension.normal e ∈ other.extensions) := by
  have hwritten : ∀ written, Extension.normal (Extension.normal written) =
      Extension.normal written ↔ ¬Extension.BlankBehindDots written.toList := fun written => by
    rw [Extension.normal_normal_iff, Extension.normal, String.toList_ofList,
      Extension.beginsBlank_normalize_iff]
  refine ⟨hwritten, fun c hc e he => ?_⟩
  obtain ⟨written, rfl⟩ := hbuilt.exists_written hc he
  refine ⟨Extension.normal_normal_iff, fun hfinal => ?_, isSome_claimOf?_iff⟩
  have hnormal := Extension.normal_normal_iff.mpr hfinal
  have hsome := isSome_claimOf?_iff.mpr ⟨c, hc, by rwa [hnormal]⟩
  obtain ⟨found, hfound⟩ := Option.isSome_iff_exists.mp hsome
  have hholds := holds_of_claimOf? hfound
  rw [hnormal] at hholds
  exact ⟨found, hfound, hholds⟩

/-- The built-in readers and a helper whose extension is written with a blank behind the dot. -/
def blankBehindDot : Readers :=
  (builtIn (.defaults (.ofString "data"))).value.addHelper (.ofString "/bin/rbparse")
    [". RB", ".rake"]

theorem built_blankBehindDot : Built blankBehindDot :=
  .addHelper _ _ (.builtIn _)

/-- The extension that the helper holds is not in normal form, and nobody is found for it. -/
theorem not_final_blankBehindDot :
    Built blankBehindDot ∧ (∃ c ∈ blankBehindDot.claims, " rb" ∈ c.extensions) ∧
      Extension.normal " rb" = "rb" ∧ blankBehindDot.claimOf? " rb" = .none :=
  ⟨built_blankBehindDot, by decide +kernel, by decide +kernel, by decide +kernel⟩

theorem held_is_final_iff_blankBehindDot :
    Built blankBehindDot ∧
      (∃ c ∈ blankBehindDot.claims, "rake" ∈ c.extensions ∧ " rb" ∈ c.extensions) ∧
      Extension.normal "rake" = "rake" ∧ Extension.normal " rb" ≠ " rb" ∧
      ∃ found, blankBehindDot.claimOf? "rake" = some found ∧ "rake" ∈ found.extensions := by
  have hheld : ∃ c ∈ blankBehindDot.claims, "rake" ∈ c.extensions ∧ " rb" ∈ c.extensions := by
    decide +kernel
  obtain ⟨c, hc, hrake, hrb⟩ := hheld
  obtain ⟨-, hextensions⟩ := held_is_final_iff built_blankBehindDot
  obtain ⟨hrakeFinal, hfound, -⟩ := hextensions c hc "rake" hrake
  obtain ⟨hrbFinal, -, -⟩ := hextensions c hc " rb" hrb
  have hletter : ¬Extension.BeginsBlank "rake".toList := by decide
  have hblank : Extension.BeginsBlank " rb".toList := by decide
  exact ⟨built_blankBehindDot, ⟨c, hc, hrake, hrb⟩, hrakeFinal.mpr hletter,
    fun hsame => hrbFinal.mp hsame hblank, hfound hletter⟩

end Readers

end TodoIndex
