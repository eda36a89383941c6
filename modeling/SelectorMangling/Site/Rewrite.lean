import SelectorMangling.Rewriting.Rewriter
import SelectorMangling.Site.Scan

/-!
# Rewriting a locale

Every source file of a locale is rewritten with the catalog in memory, folder by folder and file by
file.
-/

namespace SelectorMangling.Site

open Rewriting

/-- Rewrites a file, and tells about the names in it that are not cataloged. -/
def rewriteFile (rewriter : Rewriter) (file : Path) : Work Unit := do
  match rewriter.run (← readFile file) with
  | none => throw (.stuck file)
  | some progress =>
    tellAll (progress.unknown.map .unknown)
    writeFile file (String.ofList progress.text)

/-- Rewrites the files of a folder, with the number of files rewritten before. -/
def rewriteFiles (rewriter : Rewriter) (folder : Path) (count : Nat) :
    List SourceFile → Work Nat
  | [] => return count
  | file :: rest => do
    onFault (rewriteFile rewriter file.path) (.rewriteFailed file.name folder)
    tell (.rewritten file.name folder)
    rewriteFiles rewriter folder (count + 1) rest

def rewriteFolders (rewriter : Rewriter) (count : Nat) : List Path → Work Nat
  | [] => return count
  | folder :: rest => do
    let count ← rewriteFiles rewriter folder count (← listFiles folder)
    rewriteFolders rewriter count rest

/-- Rewrites every source file of a locale, and counts them. -/
def rewrite (settings : Settings) (root : Path) : Work Nat := do
  let rewriter := (← get).catalog.rewriter
  rewriteFolders rewriter 0 (← listFolders settings root)

end SelectorMangling.Site
