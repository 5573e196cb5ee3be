import Stencil.Disk.Files

/-!
# Reading back what was written

A path leads to the same place after a file was written: what was on its way is still there, and is
still a folder or a link. On a disk without links this holds of every path. Where there are links,
it holds as long as none was at the location itself, and in a tree none is where a path leads.

* `Sound.put`: a tree stays a tree.
* `walk_put`: a walk over links goes the same way after something was put where neither a folder nor
  a link was.
* `locate_put`: **a path leads to the same place** after something was put where no folder was.
* `readBytes_of_writeBytes`: **what is written to a path is read from it.**
* `readBytes_of_writeBytes_other`: **another file stays as it is.**
* `Sound.readBytes_of_writeBytes`: **what is written over links is read over them.**
-/

namespace Stencil.Disk

variable {disk after : Disk} {folder location target found : Location} {content old : Bytes}
  {path other : Path} {purpose : Purpose} {steps : List Step} {node : Node} {links : Nat}
  {stop : Stop} {route : Bytes}

/-- A walk over a disk without links ends where it first stops. -/
theorem walk_eq_ok_iff (plain : disk.Plain) {links : Nat} :
    disk.walk purpose links location steps = .ok found ↔
      disk.advance purpose location steps = .ok (.at found) := by
  unfold walk
  cases hstop : disk.advance purpose location steps with
  | error cause => simp
  | ok stop =>
    cases stop with
    | «at» location => simp
    | link around route rest => exact absurd hstop (advance_ne_link plain)

/-- A path on a disk without links is walked at once. -/
theorem locate_eq_ok_iff (plain : disk.Plain) :
    disk.locate purpose folder path = .ok found ↔ unusable? path = none ∧
      disk.advance purpose (startOf folder path.bytes) (stepsOf path.bytes) = .ok (.at found) := by
  unfold locate
  cases unusable? path with
  | some cause => simp
  | none => simpa using walk_eq_ok_iff plain

theorem ne_nil_of_free (hfree : disk.hasFolder location = false) : location ≠ [] := by
  rintro rfl
  simp [hasFolder, node?_nil] at hfree

theorem plain_put (plain : disk.Plain) (hnode : ∀ route, node ≠ .link route) :
    (disk.put location node).Plain := by
  intro other target
  by_cases h : other = location
  · subst h
    by_cases hnil : other = []
    · subst hnil
      rw [node?_nil]; simp
    · rw [node?_put_self disk node hnil]
      simpa using hnode target
  · rw [node?_put_of_ne disk node h]
    exact plain other target

/-- **A tree stays a tree** when something is put into a folder where no folder was. -/
theorem Sound.put {name : Name} {around : Location} (sound : disk.Sound)
    (haround : disk.node? around = some .folder) (hfree : disk.hasFolder (name :: around) = false) :
    (disk.put (name :: around) node).Sound := by
  have hkeys : ∀ other, other ∈ (disk.put (name :: around) node).entries.map Prod.fst →
      other = name :: around ∨ other ∈ disk.entries.map Prod.fst := by
    intro other hother
    obtain ⟨entry, hentry, rfl⟩ := List.mem_map.1 hother
    rcases mem_of_mem_putKey hentry with rfl | hold
    · exact .inl rfl
    · exact .inr (List.mem_map_of_mem hold)
  refine ⟨?_, fun other hother => ?_, fun child folder hchild => ?_⟩
  · rw [Disk.put, keys_putKey]
    split
    · exact sound.nodup
    · next hnew =>
      rw [List.nodup_append]
      refine ⟨sound.nodup, by simp, fun a ha b hb heq => ?_⟩
      rw [List.mem_singleton] at hb
      exact hnew (hb ▸ heq ▸ ha)
  · rcases hkeys other hother with rfl | hold
    · exact List.cons_ne_nil name around
    · exact sound.below_top other hold
  · have hfolder : disk.node? folder = some .folder := by
      rcases hkeys _ hchild with heq | hold
      · cases heq
        exact haround
      · exact sound.closed child folder hold
    -- no folder was at the location, so it is not the one that holds the child
    have hne : folder ≠ name :: around := by
      rintro rfl
      simp [hasFolder, hfolder] at hfree
    rw [node?_put_of_ne disk _ hne]
    exact hfolder

/-- A walk stops at the end where no link is, or at a link in a folder. -/
def Rests (disk : Disk) : Stop → Prop
  | .at location => ∀ route, disk.node? location ≠ some (.link route)
  | .link around _ _ => disk.node? around = some .folder

/-- A walk goes the same way, to its end or to the next link, after something was put where neither
a folder nor a link was. A walk that made room for it finds it there. -/
theorem advance_put (hnode : ∀ route, node ≠ .link route)
    (hfree : disk.hasFolder target = false) (hrests : disk.Rests (.at target))
    (hpurpose : purpose = .find ∨ ∀ found, stop = .at found → found = target)
    (h : disk.advance purpose location steps = .ok stop) :
    (disk.put target node).advance .find location steps = .ok stop := by
  have hnil := ne_nil_of_free hfree
  induction steps generalizing location with
  | nil => exact h
  | cons step rest ih =>
    unfold advance at h ⊢
    split at h
    · cases h
    · next hhere =>
      have hhere : disk.node? location = some .folder := by simpa using hhere
      have hne : location ≠ target := by
        rintro rfl
        simp [hasFolder, hhere] at hfree
      rw [node?_put_of_ne disk _ hne, if_neg (by simp [hhere])]
      cases step with
      | here => exact ih h
      | slash => exact ih h
      | up => exact ih h
      | name name =>
        simp only at h ⊢
        split at h
        · cases h
        · split at h
          · cases h
          · next hlong =>
            rw [if_neg (by simp), if_neg hlong]
            by_cases hthere : name :: location = target
            · rw [hthere, node?_put_self disk _ hnil]
              rw [hthere] at h
              have hplaced : (disk.put target node).advance .find target rest = .ok stop := by
                cases hthen : disk.node? target with
                | none =>
                  -- the walk made room for the node, so it ends here
                  rw [hthen] at h
                  simp only at h
                  split at h
                  · next hroom =>
                    cases h
                    rw [hroom.2]
                    rfl
                  · cases h
                | some old =>
                  cases old with
                  | link route => exact absurd hthen (hrests route)
                  | file old => exact ih (by simpa [hthen] using h)
                  | folder => simp [hasFolder, hthen] at hfree
              cases node with
              | link route => exact absurd rfl (hnode route)
              | file content => exact hplaced
              | folder => exact hplaced
            · rw [node?_put_of_ne disk _ hthere]
              cases hthen : disk.node? (name :: location) with
              | none =>
                rw [hthen] at h
                simp only at h
                split at h
                · next hroom =>
                  rcases hpurpose with hfind | hfound
                  · exact absurd (hfind ▸ hroom.1) (by simp)
                  · cases h
                    exact absurd (hfound _ rfl) hthere
                · cases h
              | some old =>
                cases old with
                | link route => simpa [hthen] using h
                | file old => exact ih (by simpa [hthen] using h)
                | folder => exact ih (by simpa [hthen] using h)

/-- A walk ends where it first stops, or it goes on at a link and follows one link less. -/
theorem walk_eq_ok_or : disk.walk purpose links location steps = .ok found ↔
    disk.advance purpose location steps = .ok (.at found) ∨
      ∃ fewer around route rest, links = fewer + 1 ∧
        disk.advance purpose location steps = .ok (.link around route rest) ∧
        disk.walk purpose fewer (startOf around route) (stepsOf route ++ rest) = .ok found := by
  rw [walk]
  cases hstop : disk.advance purpose location steps with
  | error cause => simp
  | ok stop =>
    cases stop with
    | «at» location => simp
    | link around route rest =>
      cases links with
      | zero => simp
      | succ fewer =>
        constructor
        · exact fun h => .inr ⟨fewer, around, route, rest, rfl, rfl, h⟩
        · rintro (hat | ⟨_, _, _, _, hlinks, hlink, honward⟩)
          · cases hat
          · cases hlinks
            cases hlink
            exact honward

/-- A walk over links goes the same way after something was put where neither a folder nor a link
was. -/
theorem walk_put (hnode : ∀ route, node ≠ .link route) (hfree : disk.hasFolder target = false)
    (hrests : disk.Rests (.at target)) (hpurpose : purpose = .find ∨ found = target)
    (h : disk.walk purpose links location steps = .ok found) :
    (disk.put target node).walk .find links location steps = .ok found := by
  have hends : purpose = .find ∨ ∀ location, Stop.at found = .at location → location = target :=
    hpurpose.imp id fun hfound location hstop => by cases hstop; exact hfound
  induction links generalizing location steps with
  | zero =>
    rcases walk_eq_ok_or.1 h with hat | ⟨fewer, around, route, rest, hlinks, -, -⟩
    · exact walk_eq_ok_or.2 (.inl (advance_put hnode hfree hrests hends hat))
    · omega
  | succ links ih =>
    rcases walk_eq_ok_or.1 h with hat | ⟨fewer, around, route, rest, hlinks, hstops, honward⟩
    · exact walk_eq_ok_or.2 (.inl (advance_put hnode hfree hrests hends hat))
    · cases hlinks
      have hstops := advance_put hnode hfree hrests (.inr fun _ hat => by cases hat) hstops
      exact walk_eq_ok_or.2 (.inr ⟨links, around, route, rest, rfl, hstops, ih honward⟩)

/-- A path leads to the same place after something was put where neither a folder nor a link was. -/
theorem locate_put_of_rests (hnode : ∀ route, node ≠ .link route)
    (hfree : disk.hasFolder target = false) (hrests : disk.Rests (.at target))
    (hpurpose : purpose = .find ∨ found = target)
    (h : disk.locate purpose folder path = .ok found) :
    (disk.put target node).locate .find folder path = .ok found := by
  unfold locate at h ⊢
  split at h
  · cases h
  · exact walk_put hnode hfree hrests hpurpose h

/-- **A path leads to the same place** after something was put where no folder was. -/
theorem locate_put (plain : disk.Plain) (hnode : ∀ route, node ≠ .link route)
    (hfree : disk.hasFolder target = false) (hpurpose : purpose = .find ∨ found = target)
    (h : disk.locate purpose folder path = .ok found) :
    (disk.put target node).locate .find folder path = .ok found :=
  locate_put_of_rests hnode hfree (plain target) hpurpose h

/-- Every path leads to the same place afterwards, and still over no links. -/
structure KeepsRoutes (disk after : Disk) : Prop where
  plain : after.Plain
  leads : ∀ {folder path found}, disk.locate .find folder path = .ok found →
    after.locate .find folder path = .ok found

theorem KeepsRoutes.refl (plain : disk.Plain) : disk.KeepsRoutes disk := ⟨plain, id⟩

theorem KeepsRoutes.trans {between : Disk} (h : disk.KeepsRoutes between)
    (h' : between.KeepsRoutes after) : disk.KeepsRoutes after :=
  ⟨h'.plain, fun hlocate => h'.leads (h.leads hlocate)⟩

theorem keepsRoutes_put (plain : disk.Plain) (hnode : ∀ route, node ≠ .link route)
    (hfree : disk.hasFolder target = false) : disk.KeepsRoutes (disk.put target node) :=
  ⟨plain_put plain hnode, locate_put plain hnode hfree (.inl rfl)⟩

theorem readBytes_eq_ok_iff : disk.readBytes folder path = .ok content ↔
    ∃ location, disk.locate .find folder path = .ok location ∧
      disk.node? location = some (.file content) := by
  unfold readBytes
  cases disk.locate .find folder path with
  | error cause => simp [bind, Except.bind]
  | ok location =>
    simp only [bind, Except.bind, Except.ok.injEq, exists_eq_left']
    cases disk.node? location with
    | none => simp [throw, throwThe, MonadExceptOf.throw]
    | some node =>
      cases node <;> simp [throw, throwThe, MonadExceptOf.throw, pure, Except.pure]

/-- A file that can be read is there. -/
theorem isPresent_of_readBytes (h : disk.readBytes folder path = .ok content) :
    disk.isPresent folder path = true := by
  obtain ⟨location, hlocate, -⟩ := readBytes_eq_ok_iff.1 h
  rw [isPresent, hlocate]
  rfl

/-- **What is written to a path is read from it.** -/
theorem readBytes_of_writeBytes (plain : disk.Plain)
    (h : disk.writeBytes folder path content = .ok after) :
    after.readBytes folder path = .ok content := by
  obtain ⟨location, hlocate, hfree, rfl⟩ := writeBytes_eq_ok h
  exact readBytes_eq_ok_iff.2 ⟨location, locate_put plain (by simp) hfree (.inr rfl) hlocate,
    node?_put_self disk _ (ne_nil_of_free hfree)⟩

/-- What could be read before something was put where no folder was can be read after it, unless it
was put just there. -/
theorem readBytes_put (plain : disk.Plain) (node : Node) (hnode : ∀ route, node ≠ .link route)
    (hfree : disk.hasFolder target = false) (h : disk.readBytes folder path = .ok content) :
    disk.locate .find folder path = .ok target ∨
      (disk.put target node).readBytes folder path = .ok content := by
  obtain ⟨location, hlocate, hfile⟩ := readBytes_eq_ok_iff.1 h
  by_cases hsame : location = target
  · exact .inl (hsame ▸ hlocate)
  · have hlocate := locate_put plain hnode hfree (.inl rfl) hlocate
    refine .inr (readBytes_eq_ok_iff.2 ⟨location, hlocate, ?_⟩)
    rw [node?_put_of_ne disk node hsame]
    exact hfile

theorem plain_of_writeBytes (plain : disk.Plain)
    (h : disk.writeBytes folder path content = .ok after) : after.Plain := by
  obtain ⟨location, -, -, rfl⟩ := writeBytes_eq_ok h
  exact plain_put plain (by simp)

/-- **Another file stays as it is**, unless it is the one that was written. -/
theorem readBytes_of_writeBytes_other (plain : disk.Plain)
    (h : disk.writeBytes folder path content = .ok after)
    (hother : disk.readBytes folder other = .ok old) :
    after.readBytes folder other = .ok old ∨ after.readBytes folder other = .ok content := by
  obtain ⟨location, -, hfree, rfl⟩ := writeBytes_eq_ok h
  rcases readBytes_put plain (.file content) (by simp) hfree hother with hsame | hkept
  · exact .inr (readBytes_eq_ok_iff.2 ⟨location, locate_put plain (by simp) hfree (.inl rfl) hsame,
      node?_put_self disk _ (ne_nil_of_free hfree)⟩)
  · exact .inl hkept

/-! ## Over links -/

theorem rests_of_folder (h : disk.node? location = some .folder) : disk.Rests (.at location) := by
  intro route hlink
  rw [h] at hlink
  cases hlink

theorem Sound.node?_tail (sound : disk.Sound) (h : disk.node? location = some .folder) :
    disk.node? location.tail = some .folder := by
  cases location with
  | nil => exact h
  | cons name around =>
    rw [node?, if_neg (List.cons_ne_nil name around)] at h
    obtain ⟨before, after, hentries, -⟩ := List.lookup_eq_some_iff.1 h
    refine sound.closed name around (List.mem_map.2 ⟨(name :: around, .folder), ?_, rfl⟩)
    rw [hentries]
    simp

/-- **In a tree a walk over at least one step rests** where it stops. -/
theorem Sound.rests_of_advance (sound : disk.Sound)
    (hstart : steps = [] → disk.Rests (.at location))
    (h : disk.advance purpose location steps = .ok stop) : disk.Rests stop := by
  induction steps generalizing location with
  | nil =>
    cases h
    exact hstart rfl
  | cons step rest ih =>
    unfold advance at h
    split at h
    · cases h
    · next hhere =>
      have hhere : disk.node? location = some .folder := by simpa using hhere
      cases step with
      | here => exact ih (fun _ => rests_of_folder hhere) h
      | slash => exact ih (fun _ => rests_of_folder hhere) h
      | up => exact ih (fun _ => rests_of_folder (sound.node?_tail hhere)) h
      | name name =>
        simp only at h
        split at h
        · cases h
        · split at h
          · cases h
          · cases hthen : disk.node? (name :: location) with
            | none =>
              rw [hthen] at h
              simp only at h
              split at h
              · cases h
                intro route hlink
                rw [hthen] at hlink
                cases hlink
              · cases h
            | some old =>
              rw [hthen] at h
              cases old with
              | link target =>
                cases h
                exact hhere
              | file content => exact ih (fun _ route => by simp [hthen]) h
              | folder => exact ih (fun _ => rests_of_folder hthen) h

/-- A path without steps stands for the top, or it is empty. -/
theorem node?_startOf (hfolder : route = [] → disk.node? folder = some .folder)
    (h : stepsOf route = []) : disk.node? (startOf folder route) = some .folder := by
  cases route with
  | nil => exact hfolder rfl
  | cons c rest =>
    by_cases hc : c = Path.slash
    · have htop : startOf folder (c :: rest) = [] := if_pos (congrArg some hc)
      rw [htop, node?_nil]
    · -- the first piece of the route is a step
      obtain ⟨piece, pieces, -, hsplit⟩ := splitAt_cons Path.slash c rest
      rw [if_neg hc] at hsplit
      simp [stepsOf, hsplit] at h

/-- In a tree no link is where a walk over links ends. -/
theorem Sound.rests_of_walk (sound : disk.Sound) (hstart : steps = [] → disk.Rests (.at location))
    (h : disk.walk purpose links location steps = .ok found) : disk.Rests (.at found) := by
  induction links generalizing location steps with
  | zero =>
    rcases walk_eq_ok_or.1 h with hends | ⟨fewer, around, route, rest, hlinks, -, -⟩
    · exact sound.rests_of_advance hstart hends
    · omega
  | succ links ih =>
    rcases walk_eq_ok_or.1 h with hends | ⟨fewer, around, route, rest, hlinks, hstops, honward⟩
    · exact sound.rests_of_advance hstart hends
    · cases hlinks
      -- the link is in a folder, so there is one where the walk goes on
      have haround : disk.node? around = some .folder := sound.rests_of_advance hstart hstops
      refine ih (fun hsteps => rests_of_folder (node?_startOf (fun _ => haround) ?_)) honward
      exact (List.append_eq_nil_iff.1 hsteps).1

/-- In a tree no link is where a path leads. -/
theorem Sound.rests_of_locate (sound : disk.Sound)
    (h : disk.locate purpose folder path = .ok found) : disk.Rests (.at found) := by
  unfold locate at h
  split at h
  · cases h
  · next husable =>
    have hbytes : path.bytes ≠ [] := by
      intro hnil
      unfold unusable? at husable
      grind
    refine sound.rests_of_walk (fun hsteps => ?_) h
    exact rests_of_folder (node?_startOf (fun hnil => absurd hnil hbytes) hsteps)

/-- **What is written to a path is read from it**, over the links that it was written over. -/
theorem Sound.readBytes_of_writeBytes (sound : disk.Sound)
    (h : disk.writeBytes folder path content = .ok after) :
    after.readBytes folder path = .ok content := by
  obtain ⟨location, hlocate, hfree, rfl⟩ := writeBytes_eq_ok h
  have hrests := sound.rests_of_locate hlocate
  exact readBytes_eq_ok_iff.2 ⟨location,
    locate_put_of_rests (by simp) hfree hrests (.inr rfl) hlocate,
    node?_put_self disk _ (ne_nil_of_free hfree)⟩

end Stencil.Disk
