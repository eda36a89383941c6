import SelectorMangling.Catalog.Store
import SelectorMangling.Proofs.Catalog.Format
import SelectorMangling.Proofs.FileTree.Content

/-!
# A saved catalog is loaded again

The file of a catalog that was saved holds its text, so that loading gives the catalog back.
-/

namespace SelectorMangling.Catalog

variable {catalog : Catalog} {tree written : FileTree} {path : Path}

/-- A catalog is saved by making directories and writing its text. -/
theorem exists_of_save (hsave : catalog.save tree path = (written, .ok ())) :
    ∃ larger, tree.makeParents path = .ok larger ∧
      larger.writeText path catalog.render = .ok written := by
  unfold save at hsave
  split at hsave
  · simp at hsave
  · next larger hparents =>
    split at hsave
    · simp at hsave
    · next last hwrite =>
      obtain rfl := (Prod.mk.inj hsave).1
      exact ⟨larger, hparents, hwrite⟩

/-- The text of the file of a saved catalog. -/
theorem readText_of_save (hsave : catalog.save tree path = (written, .ok ())) :
    written.exists? path = true ∧ written.readText path = .ok catalog.render := by
  obtain ⟨larger, -, hwrite⟩ := exists_of_save hsave
  exact FileTree.readText_writeText hwrite

/-- A file that can be read is loaded as its text is read. -/
theorem load_of_readText {text : String} (htext : tree.readText path = .ok text) :
    load tree path = (parse text).mapError fun error => ⟨path, .format error⟩ := by
  have hexists : tree.exists? path = true := by
    obtain ⟨location, content, hfind, -⟩ := FileTree.find_of_readText htext
    rw [FileTree.exists?, hfind]
    rfl
  rw [load, if_pos hexists, htext]

/-- A tree in which the file holds the text of a catalog gives the catalog back. -/
theorem load_eq_ok_of_readText (hfree : countKey ∉ catalog.names)
    (htext : tree.readText path = .ok catalog.render) : load tree path = .ok catalog := by
  rw [load_of_readText htext, parse_render hfree]
  rfl

theorem load_of_save (hfree : countKey ∉ catalog.names)
    (hsave : catalog.save tree path = (written, .ok ())) : load written path = .ok catalog := by
  exact load_eq_ok_of_readText hfree (readText_of_save hsave).2

/-- Saving succeeds where the directories are there and the file can be written. -/
theorem save_eq_ok (hparents : tree.makeParents path = .ok tree)
    (hwrite : tree.writeText path catalog.render = .ok written) :
    catalog.save tree path = (written, .ok ()) := by
  simp only [save, hparents, hwrite]

/-- Without a file there is nothing cataloged. -/
theorem load_of_not_exists (habsent : tree.exists? path = false) : load tree path = .ok empty := by
  simp [load, habsent]

/-- What is loaded depends only on what the path leads to. -/
theorem load_congr {other : FileTree} (hfind : other.find path = tree.find path) :
    load other path = load tree path := by
  have hexists : other.exists? path = tree.exists? path := by
    rw [FileTree.exists?, FileTree.exists?, hfind]
  have htext : other.readText path = tree.readText path := by
    rw [FileTree.readText, FileTree.readText, hfind]
  rw [load, load, hexists, htext]

end SelectorMangling.Catalog
