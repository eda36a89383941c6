import SelectorMangling.FileTree.Resolve

/-!
# The ways of paths

Following a path may fail at any step.  If it comes to anything, it has gone a way on which every
step was possible, and a way that is possible is the one that is gone.  So what holds along such ways
is shown by their steps, without a word on the faults.
-/

namespace SelectorMangling.FileTree

variable {tree : FileTree} {followLast : Bool} {links : Nat} {directory : Location}
  {steps : List String} {target : Target}

/-- A step that is looked up in a directory. -/
structure IsLookedUp (step : String) : Prop where
  moves : ¬(step = "" ∨ step = ".")
  not_parent : step ≠ ".."

/-- Steps from a directory lead to something, or to a place where nothing is, by way of at most so
many links. -/
inductive Leads (tree : FileTree) (followLast : Bool) :
    Nat → Location → List String → Target → Prop
  | arrived {links : Nat} {directory : Location} :
      Leads tree followLast links directory [] (.found directory .directory)
  | stay {links : Nat} {directory : Location} {step : String} {rest : List String}
      {target : Target} (hstep : step = "" ∨ step = ".")
      (hrest : Leads tree followLast links directory rest target) :
      Leads tree followLast links directory (step :: rest) target
  | up {links : Nat} {directory : Location} {rest : List String} {target : Target}
      (hrest : Leads tree followLast links directory.dropLast rest target) :
      Leads tree followLast links directory (".." :: rest) target
  | missing {links : Nat} {directory : Location} {step : String} (hstep : IsLookedUp step)
      (hentry : tree.entryAt (directory ++ [step]) = none) :
      Leads tree followLast links directory [step] (.vacant (directory ++ [step]))
  | enter {links : Nat} {directory : Location} {step : String} {rest : List String}
      {target : Target} (hstep : IsLookedUp step)
      (hentry : tree.entryAt (directory ++ [step]) = some .directory)
      (hrest : Leads tree followLast links (directory ++ [step]) rest target) :
      Leads tree followLast links directory (step :: rest) target
  | file {links : Nat} {directory : Location} {step : String} {content : ByteArray}
      (hstep : IsLookedUp step)
      (hentry : tree.entryAt (directory ++ [step]) = some (.file content)) :
      Leads tree followLast links directory [step] (.found (directory ++ [step]) (.file content))
  | link {links : Nat} {directory : Location} {step : String} {goal : Path}
      (hstep : IsLookedUp step) (hlast : followLast = false)
      (hentry : tree.entryAt (directory ++ [step]) = some (.link goal)) :
      Leads tree followLast links directory [step] (.found (directory ++ [step]) (.link goal))
  | through {links : Nat} {directory : Location} {step : String} {rest : List String} {goal : Path}
      {target : Target} (hstep : IsLookedUp step) (hgoes : rest = [] → followLast = true)
      (hentry : tree.entryAt (directory ++ [step]) = some (.link goal))
      (hrest : Leads tree followLast links (if goal.isAbsolute then [] else directory)
        (goal.steps ++ rest) target) :
      Leads tree followLast (links + 1) directory (step :: rest) target

theorem leads_of_follow (hfollow : tree.follow followLast links directory steps = .ok target) :
    tree.Leads followLast links directory steps target := by
  induction links, directory, steps using follow.induct tree followLast with
  | case1 links directory =>
    rw [follow, Except.ok.injEq] at hfollow
    rw [← hfollow]
    exact .arrived
  | case2 links directory step rest hstep ih =>
    rw [follow, if_pos hstep] at hfollow
    exact .stay hstep (ih hfollow)
  | case3 links directory rest hmoves ih =>
    rw [follow, if_neg hmoves, if_pos rfl] at hfollow
    exact .up (ih hfollow)
  | case4 links directory step rest hmoves hparent location hentry hlast =>
    rw [follow, if_neg hmoves, if_neg hparent] at hfollow
    simp only [location, hentry, hlast, if_true, Except.ok.injEq] at hfollow
    rw [← hfollow, List.isEmpty_iff.mp hlast]
    exact .missing ⟨hmoves, hparent⟩ hentry
  | case6 links directory step rest hmoves hparent location hentry ih =>
    rw [follow, if_neg hmoves, if_neg hparent] at hfollow
    simp only [location, hentry] at hfollow
    exact .enter ⟨hmoves, hparent⟩ hentry (ih hfollow)
  | case7 links directory step rest hmoves hparent location content hentry hlast =>
    rw [follow, if_neg hmoves, if_neg hparent] at hfollow
    simp only [location, hentry, hlast, if_true, Except.ok.injEq] at hfollow
    rw [← hfollow, List.isEmpty_iff.mp hlast]
    exact .file ⟨hmoves, hparent⟩ hentry
  | case9 links directory step rest hmoves hparent location goal hentry hstops =>
    rw [follow, if_neg hmoves, if_neg hparent] at hfollow
    simp only [location, hentry, if_pos hstops, Except.ok.injEq] at hfollow
    rw [Bool.and_eq_true, List.isEmpty_iff, Bool.not_eq_true'] at hstops
    rw [← hfollow, hstops.1]
    exact .link ⟨hmoves, hparent⟩ hstops.2 hentry
  | case11 directory step rest hmoves hparent location goal hentry hgoes links start ih =>
    rw [follow, if_neg hmoves, if_neg hparent] at hfollow
    simp only [location, hentry, if_neg hgoes] at hfollow
    exact .through ⟨hmoves, hparent⟩ (fun hlast => by simpa [hlast] using hgoes) hentry (ih hfollow)
  -- In the other cases following fails.
  | case5 links directory step rest hmoves hparent location hentry hlast
  | case8 links directory step rest hmoves hparent location content hentry hlast =>
    rw [follow, if_neg hmoves, if_neg hparent] at hfollow
    simp [location, hentry, hlast] at hfollow
  | case10 directory step rest hmoves hparent location goal hentry hgoes =>
    rw [follow, if_neg hmoves, if_neg hparent] at hfollow
    simp [location, hentry, hgoes] at hfollow

theorem Leads.follow_eq (hleads : tree.Leads followLast links directory steps target) :
    tree.follow followLast links directory steps = .ok target := by
  induction hleads with
  | arrived => rw [follow]
  | stay hstep _ ih => rw [follow, if_pos hstep, ih]
  | up _ ih => rw [follow, if_neg (by decide), if_pos rfl, ih]
  | missing hstep hentry =>
    rw [follow, if_neg hstep.moves, if_neg hstep.not_parent]
    simp only [hentry, List.isEmpty_nil, if_true]
  | enter hstep hentry _ ih =>
    rw [follow, if_neg hstep.moves, if_neg hstep.not_parent]
    simp only [hentry, ih]
  | file hstep hentry =>
    rw [follow, if_neg hstep.moves, if_neg hstep.not_parent]
    simp only [hentry, List.isEmpty_nil, if_true]
  | link hstep hlast hentry =>
    rw [follow, if_neg hstep.moves, if_neg hstep.not_parent]
    simp only [hentry, hlast, List.isEmpty_nil, Bool.not_false, Bool.and_self, if_true]
  | through hstep hgoes hentry _ ih =>
    rw [follow, if_neg hstep.moves, if_neg hstep.not_parent]
    simp only [hentry, ih, Bool.and_eq_true, List.isEmpty_iff, Bool.not_eq_true']
    rw [if_neg]
    rintro ⟨hlast, hends⟩
    rw [hgoes hlast] at hends
    contradiction

/-- Following steps comes to what they lead to. -/
theorem follow_eq_ok_iff_leads :
    tree.follow followLast links directory steps = .ok target ↔
      tree.Leads followLast links directory steps target :=
  ⟨leads_of_follow, Leads.follow_eq⟩

/-! ## Where ways end -/

/-- What a way ends at stands there, and at a vacant place nothing does.  A directory may be the one
that the way began at. -/
def Target.IsAt (tree : FileTree) : Target → Prop
  | .found _ .directory => True
  | .found location entry => tree.entryAt location = some entry
  | .vacant location => tree.entryAt location = none

namespace Leads

theorem isAt (hleads : tree.Leads followLast links directory steps target) :
    target.IsAt tree := by
  induction hleads with
  | arrived => trivial
  | missing _ hentry | file _ hentry | link _ _ hentry => exact hentry
  | stay _ _ ih | up _ ih | enter _ _ _ ih | through _ _ _ _ ih => exact ih

/-- Steps that lead to no link lead to the same if a link at the last one is followed. -/
theorem followed (hleads : tree.Leads false links directory steps target)
    (htarget : ∀ location goal, target ≠ .found location (.link goal)) :
    tree.Leads true links directory steps target := by
  induction hleads with
  | arrived => exact .arrived
  | stay hstep _ ih => exact .stay hstep (ih htarget)
  | up _ ih => exact .up (ih htarget)
  | missing hstep hentry => exact .missing hstep hentry
  | enter hstep hentry _ ih => exact .enter hstep hentry (ih htarget)
  | file hstep hentry => exact .file hstep hentry
  | link => exact absurd rfl (htarget _ _)
  | through hstep _ hentry _ ih => exact .through hstep (fun _ => rfl) hentry (ih htarget)

/-- Steps that lead somewhere lead there too if a link at the last one is not followed, or they lead
to such a link. -/
theorem unfollowed (hleads : tree.Leads true links directory steps target) :
    tree.Leads false links directory steps target ∨
      ∃ location goal, tree.Leads false links directory steps (.found location (.link goal)) := by
  induction hleads with
  | arrived => exact .inl .arrived
  | stay hstep _ ih =>
    rcases ih with hsame | ⟨location, goal, hlink⟩
    · exact .inl (.stay hstep hsame)
    · exact .inr ⟨location, goal, .stay hstep hlink⟩
  | up _ ih =>
    rcases ih with hsame | ⟨location, goal, hlink⟩
    · exact .inl (.up hsame)
    · exact .inr ⟨location, goal, .up hlink⟩
  | missing hstep hentry => exact .inl (.missing hstep hentry)
  | enter hstep hentry _ ih =>
    rcases ih with hsame | ⟨location, goal, hlink⟩
    · exact .inl (.enter hstep hentry hsame)
    · exact .inr ⟨location, goal, .enter hstep hentry hlink⟩
  | file hstep hentry => exact .inl (.file hstep hentry)
  | link _ hlast => contradiction
  | @through _ _ _ rest _ _ hstep _ hentry _ ih =>
    -- At the last step the link is what the other way ends at, and before it both follow it.
    by_cases hrest : rest = []
    · rw [hrest]
      exact .inr ⟨_, _, .link hstep rfl hentry⟩
    · rcases ih with hsame | ⟨location, goal, hlink⟩
      · exact .inl (.through hstep (absurd · hrest) hentry hsame)
      · exact .inr ⟨location, goal, .through hstep (absurd · hrest) hentry hlink⟩

end Leads

/-! ## Paths -/

/-- Where following a path begins. -/
def startOf (tree : FileTree) (path : Path) : Location :=
  if path.isAbsolute then [] else tree.current

/-- A path is resolved to what its steps lead to. -/
theorem resolve_eq_ok_iff_leads {path : Path} :
    tree.resolve followLast path = .ok target ↔ path.text.isEmpty = false ∧
      tree.Leads followLast linkLimit (tree.startOf path) path.steps target := by
  rw [← follow_eq_ok_iff_leads, resolve, startOf]
  cases path.text.isEmpty <;> simp

/-- A path that leads anywhere is not empty. -/
theorem text_ne_empty_of_resolve {path : Path}
    (hresolve : tree.resolve followLast path = .ok target) : path.text ≠ "" := by
  have hsome := (resolve_eq_ok_iff_leads.mp hresolve).1
  rwa [Bool.eq_false_iff, ne_eq, String.isEmpty_iff] at hsome

/-! ## Ways of a bounded number of steps -/

/-- Following steps, with a bound on how many are taken. -/
def followWithin (tree : FileTree) (followLast : Bool) :
    (moves : Nat) → (links : Nat) → Location → List String → Option Target
  | 0, _, _, _ => none
  | _ + 1, _, directory, [] => some (.found directory .directory)
  | moves + 1, links, directory, step :: rest =>
    if step = "" ∨ step = "." then tree.followWithin followLast moves links directory rest
    else if step = ".." then tree.followWithin followLast moves links directory.dropLast rest
    else
      let location := directory ++ [step]
      match tree.entryAt location with
      | none => if rest.isEmpty then some (.vacant location) else none
      | some .directory => tree.followWithin followLast moves links location rest
      | some (.file content) =>
        if rest.isEmpty then some (.found location (.file content)) else none
      | some (.link goal) =>
        if rest.isEmpty && !followLast then some (.found location (.link goal))
        else
          match links with
          | 0 => none
          | links + 1 =>
            let start := if goal.isAbsolute then [] else directory
            tree.followWithin followLast moves links start (goal.steps ++ rest)

theorem follow_of_followWithin {moves : Nat}
    (htarget : tree.followWithin followLast moves links directory steps = some target) :
    tree.follow followLast links directory steps = .ok target := by
  fun_induction followWithin tree followLast moves links directory steps with
  | case1 | case6 | case9 | case11 => contradiction
  | case2 => simpa [follow] using htarget
  | case3 _ _ _ _ _ hstep ih => rw [follow, if_pos hstep, ih htarget]
  | case4 _ _ _ _ hmoves ih => rw [follow, if_neg hmoves, if_pos rfl, ih htarget]
  | case5 _ _ _ _ _ hmoves hparent location hentry hlast =>
    rw [follow, if_neg hmoves, if_neg hparent]
    simpa [location, hentry, hlast] using htarget
  | case7 _ _ _ _ _ hmoves hparent location hentry ih =>
    rw [follow, if_neg hmoves, if_neg hparent]
    simpa [location, hentry] using ih htarget
  | case8 _ _ _ _ _ hmoves hparent location content hentry hlast =>
    rw [follow, if_neg hmoves, if_neg hparent]
    simpa [location, hentry, hlast] using htarget
  | case10 _ _ _ _ _ hmoves hparent location goal hentry hstops =>
    rw [follow, if_neg hmoves, if_neg hparent]
    simpa only [location, hentry, if_pos hstops, Option.some.injEq, Except.ok.injEq] using htarget
  | case12 _ _ _ _ hmoves hparent location goal hentry hgoes links start ih =>
    rw [follow, if_neg hmoves, if_neg hparent]
    simpa only [location, hentry, if_neg hgoes] using ih htarget

/-- What a path is resolved to, with a bound on how many steps are taken. -/
def resolveWithin (tree : FileTree) (followLast : Bool) (moves : Nat) (path : Path) :
    Option Target :=
  if path.text.isEmpty then none
  else tree.followWithin followLast moves linkLimit (tree.startOf path) path.steps

theorem resolve_of_resolveWithin (moves : Nat) {path : Path}
    (htarget : tree.resolveWithin followLast moves path = some target) :
    tree.resolve followLast path = .ok target := by
  unfold resolveWithin at htarget
  split at htarget
  · contradiction
  · next hpath =>
    rw [resolve, if_neg hpath]
    exact follow_of_followWithin htarget

end SelectorMangling.FileTree
