import SelectorMangling.Proofs.Site.History

/-!
# Saving and loading catalogs

What was saved is read again in full and in order, except for a name that is spelled like the member
of the counter.  A catalog that began as a text has no such name, however it was extended since, so
that nothing of it is lost.
-/

namespace SelectorMangling.Site

/-- A catalog that was read from a text and extended by scans and numberings. -/
inductive FromText : Catalog → Prop
  | parse {text : String} {catalog : Catalog} (hparse : Catalog.parse text = .ok catalog) :
      FromText catalog
  /-- Scanning any locale by any rules, whether that fails or not. -/
  | scan {workspace : Workspace} (settings : Settings) (rules : Rules) (root : Path)
      (hbefore : FromText workspace.catalog) :
      FromText (outcome (scan settings rules root) workspace).2.catalog
  | derive {catalog : Catalog} (stem : String) (hbefore : FromText catalog) :
      FromText (catalog.deriveElevation stem)

theorem FromText.countKey_notMem_names {catalog : Catalog} (hfrom : FromText catalog) :
    Catalog.countKey ∉ catalog.names := by
  induction hfrom with
  | parse hparse => exact Catalog.countKey_notMem_names_of_parse hparse
  | @scan workspace settings rules root _ ih =>
    exact (grows_scan settings rules root workspace).2.countKey_notMem ih
  | derive stem _ ih => rwa [Catalog.names_deriveElevation]

/-- The text of a saved catalog stands for the counter and the entries in their order, except one
that is spelled like the member of the counter.  A catalog that began as a text is given back as it
is. -/
theorem parse_render_of_fromText (catalog : Catalog) :
    (∃ parsed, Catalog.parse catalog.render = .ok parsed ∧ parsed.count = catalog.count ∧
      parsed.entries = catalog.entries.filter fun entry => entry.1 != Catalog.countKey) ∧
    (∀ tree written path, catalog.save tree path = (written, .ok ()) →
      written.readText path = .ok catalog.render) ∧
    (FromText catalog → Catalog.parse catalog.render = .ok catalog ∧
      ∀ tree written path, catalog.save tree path = (written, .ok ()) →
        Catalog.load written path = .ok catalog) := by
  refine ⟨Catalog.exists_parse_render_eq catalog, ?_, ?_⟩
  · intro tree written path hsave
    exact (Catalog.readText_of_save hsave).2
  · intro hfrom
    have hfree := hfrom.countKey_notMem_names
    refine ⟨Catalog.parse_render hfree, ?_⟩
    intro tree written path hsave
    exact Catalog.load_of_save hfree hsave

/-- A text with escapes, with a name twice and with the counter between the names. -/
def mixedText : String :=
  "\x7b\"q\\\"\\\\\\u0001\":\"\\n\",\"m-el2\":\"a\",\"selectorCount\":7,\"m-el2\":\"b\"\x7d"

def mixedRead : Catalog where
  entries := [("q\"\\\u0001", "\n"), ("m-el2", "b")]
  count := 7
  names_nodup := by decide

theorem parse_mixedText : Catalog.parse mixedText = .ok mixedRead := by
  decide +kernel

/-- The catalog of the text with the stem of a family. -/
def mixedGrown : Catalog where
  entries := [("q\"\\\u0001", "\n"), ("m-el2", "b"), ("m-el", "h")]
  count := mixedRead.count + 1
  names_nodup := by decide

/-- The catalog of the text after a scan that found the stem of a family, with the family
numbered. -/
def mixedCatalog : Catalog :=
  (scanOn (shortTree ".m-el") mixedRead).2.catalog.deriveElevation "m-el"

theorem entries_mixedCatalog :
    mixedCatalog.entries = [("q\"\\\u0001", "\n"), ("m-el2", "h0"), ("m-el", "h")] := by
  have hgrowth : (mixedRead.grow (shortRules.stream [(.style, ".m-el")])).exhausted = none ∧
      (mixedRead.grow (shortRules.stream [(.style, ".m-el")])).catalog = mixedGrown :=
    Catalog.grow_eq_of_entries_eq (by decide +kernel)
  have hgrown := (scanOn_of_hasStyle (hasStyle_shortTree ".m-el") hgrowth).2
  have hbase : mixedGrown.get? "m-el" = some "h" := by decide
  rw [mixedCatalog, hgrown, Catalog.entries_deriveElevation hbase]
  decide

theorem parse_render_of_fromText_mixedCatalog :
    mixedCatalog.entries = [("q\"\\\u0001", "\n"), ("m-el2", "h0"), ("m-el", "h")] ∧
      Catalog.parse mixedCatalog.render = .ok mixedCatalog ∧
      ∃ written, mixedCatalog.save (shortTree ".m-el") ⟨"/c"⟩ = (written, .ok ()) ∧
        written.readText ⟨"/c"⟩ = .ok mixedCatalog.render ∧
        Catalog.load written ⟨"/c"⟩ = .ok mixedCatalog := by
  have hfrom : FromText mixedCatalog := ((FromText.parse parse_mixedText).scan _ _ _).derive _
  obtain ⟨-, hread, hback⟩ := parse_render_of_fromText mixedCatalog
  obtain ⟨hparse, hload⟩ := hback hfrom
  have hsave : mixedCatalog.save (shortTree ".m-el") ⟨"/c"⟩ =
      ((shortTree ".m-el").set ["c"] (.file mixedCatalog.render.toUTF8), .ok ()) :=
    save_short _ (.inl (vacant_shortTree ".m-el"))
  exact ⟨entries_mixedCatalog, hparse, _, hsave, hread _ _ _ hsave, hload _ _ _ hsave⟩

end SelectorMangling.Site
