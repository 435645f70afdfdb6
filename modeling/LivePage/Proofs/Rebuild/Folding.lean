import LivePage.Proofs.Mount.Teardown
import LivePage.Proofs.Page.Between
import LivePage.Proofs.Rebuild.Reached
import LivePage.Proofs.Rebuild.Rounds

/-!
# Emissions that are folded into a rebuild

What a place is told while it is being rebuilt does not start another rebuild: when the outermost one
has ended, the place is at rest, has one record, and was rebuilt last for what it was told last
(`SiteId.onEmission_folded`). Its contents are then the nodes of the last round, provided that the
place is still there: a region follows its comments, and once these have been taken apart there is
nothing between them.
-/

namespace LivePage

open LivePage.Script

variable {w w' : World} {B C : List SiteId} {s : SiteId} {x : Site} {v : Value}
  {n content : PageNode} {target : Target} {a : Round} {d : Nat}

/-! ## What stands in a place -/

namespace World

/-- The children of a page node. -/
def childrenOf (w : World) (n : PageNode) : List PageNode :=
  (w.slot n).children.map fun i => ⟨n.page, i⟩

/-- The contents of a place: what is between the comments of a region, or below an element. -/
def standing (w : World) : Target → List PageNode
  | .region r => w.contents r
  | .contents element => w.childrenOf element

/-- The place is still there. The comments of a region are, if they are children of one node and the
opening one stands before the closing one. -/
def InPlace (w : World) : Target → Prop
  | .region r => ∃ q, [(w.region r).start, (w.region r).finish].Sublist (w.childrenOf q)
  | .contents _ => True

/-- The markup of a page node. -/
def markup (w : World) (n : PageNode) : String := (w.page n.page).outerHtml n.slot

/-- Contents that come from elsewhere stand in the place, and are written as before. -/
structure Displays (w w' : World) (content : PageNode) (target : Target) : Prop where
  standing : w'.standing target = w.childrenOf content
  markup : ∀ n ∈ w.childrenOf content, w'.markup n = w.markup n

theorem sublist_of_childrenOf {m : PageNode} (h : [n, m].Sublist (w.childrenOf content)) :
    n.page = content.page ∧ m.page = content.page ∧
      [n.slot, m.slot].Sublist (w.slot content).children := by
  have hpage : ∀ x ∈ w.childrenOf content, x.page = content.page := by
    intro x hx
    obtain ⟨i, -, rfl⟩ := List.mem_map.1 hx
    rfl
  refine ⟨hpage n (h.subset (by simp)), hpage m (h.subset (by simp)), ?_⟩
  simpa [childrenOf, Function.comp_def] using h.map PageNode.slot

/-- A region has the comments that it had. -/
theorem region_reparented (r : RegionId) (q : PageNode) :
    ((w.reparented r q).region r).start = (w.region r).start ∧
      ((w.reparented r q).region r).finish = (w.region r).finish := by
  simp only [region, reparented, Array.getD_eq_getD_getElem?, Array.getElem?_modify, if_true]
  cases w.regions[r.index]? <;> exact ⟨rfl, rfl⟩

section

variable (hf : ∀ p, (w.page p).Forest) (ht : (w.slot content).content.type = .fragment)
include hf ht

/-- The markup of what is put in does not change. -/
theorem markup_replaced {stale : List Nat} {k : Nat} (hfit : w.Fits n stale content)
    (ho : w.Occupied n) :
    ∀ x ∈ w.childrenOf content, (w.replaced n stale content k).markup x = w.markup x := by
  intro x hx
  obtain ⟨j, hj, rfl⟩ := List.mem_map.1 hx
  rw [slot, hfit.page] at ht hj
  show ((w.replaced n stale content k).page content.page).outerHtml j =
    (w.page content.page).outerHtml j
  rw [hfit.page, replaced, page_withPage_self (lt_of_occupied ho)]
  exact (hf n.page).outerHtml_replace hfit.nodup hfit.parent ht ho hfit.container hfit.notUp k hj

/-- The contents of an element after they have been replaced. -/
theorem shows_replaceChildren (ho : w.Occupied n)
    (h : (n.replaceChildren content).run w = .ok (.ok ()) w') :
    w.Displays w' content (.contents n) := by
  have hlt := lt_of_occupied ho
  obtain ⟨hfit, rfl⟩ := (ok_replaceChildren (hf n.page) ((hf _).loose _ ht) hlt).1 h
  refine ⟨?_, markup_replaced hf ht hfit ho⟩
  have ht' := ht
  rw [slot, hfit.page] at ht'
  have hchildren := (hf n.page).children_replace (k := 0) hfit.nodup hfit.parent ht' ho hfit.notUp rfl
  simp only [standing, childrenOf, replaced, slot, page_withPage_self hlt, hfit.page]
  exact congrArg _ hchildren

/-- The contents of a region after another node has come between its comments, if these stand in
their place then. -/
theorem shows_replaced {r : RegionId} {start finish : PageNode} {q k : Nat} {stale : List Nat}
    (hs : (w.region r).start = start) (hfinish : (w.region r).finish = finish)
    (hstart : (w.slot start).parent = some q) (hfit : w.Fits ⟨start.page, q⟩ stale content)
    (hstale : stale = (w.page start.page).between start.slot finish.slot)
    (hk : ((w.page start.page).detachAll stale).insertionIndex q (some finish.slot) = some k)
    (hin : (w.replaced ⟨start.page, q⟩ stale content k).InPlace (.region r)) :
    w.Displays (w.replaced ⟨start.page, q⟩ stale content k) content (.region r) := by
  have ho : w.Occupied ⟨start.page, q⟩ := ((hf _).up hstart).2.1
  refine ⟨?_, markup_replaced hf ht hfit ho⟩
  have hpage : (w.replaced ⟨start.page, q⟩ stale content k).page start.page =
    (w.page start.page).replace q stale content.slot k := page_withPage_self (lt_of_occupied ho) _
  have hregion : (w.replaced ⟨start.page, q⟩ stale content k).region r = w.region r := rfl
  obtain ⟨i, hin⟩ := hin
  rw [hregion, hs, hfinish] at hin
  obtain ⟨hp, -, hin⟩ := sublist_of_childrenOf hin
  rw [slot, ← hp, hpage] at hin
  rw [slot, hfit.page] at ht
  have hbetween := (hf _).between_replace hfit.nodup hfit.parent ht ho hfit.container hfit.notUp
    hstale hstart hk hin
  rw [standing, contents, hregion, hs, hfinish, hpage, hbetween, childrenOf, slot, hfit.page]

/-- The contents of a region after they have been replaced, if its comments stand in their place
then. -/
theorem shows_splice {r : RegionId} (h : (r.splice content).run w = .ok (.ok ()) w')
    (hin : w'.InPlace (.region r)) : w.Displays w' content (.region r) := by
  rcases (ok_splice_region rfl (hf _) ((hf _).loose _ ht)).1 h with
    ⟨hroot, rfl⟩ | ⟨⟨p, q⟩, hq, hstart, hfit, -, k, hk, rfl⟩
  · -- a comment without a parent is nobody's child
    obtain ⟨i, hin⟩ := hin
    obtain ⟨hp, -, hin⟩ := sublist_of_childrenOf hin
    have hparent := (hf i.page).down (hin.subset List.mem_cons_self)
    rw [← hp] at hparent
    exact absurd (hroot.symm.trans hparent) (by simp)
  · obtain rfl : p = (w.region r).start.page := hq
    obtain ⟨hs, hfinish⟩ := region_reparented (w := w) r ⟨(w.region r).start.page, q⟩
    have h := shows_replaced (w := w.reparented r ⟨(w.region r).start.page, q⟩) hf ht hs hfinish
      hstart ⟨hfit.page, hfit.nodup, hfit.parent, hfit.container, hfit.notUp⟩ rfl hk hin
    exact ⟨h.standing, h.markup⟩

/-- The contents of a place after content has been put there, if the place is still there. -/
theorem shows_put (ho : ∀ n, target = .contents n → w.Occupied n)
    (h : (target.put content).run w = .ok (.ok ()) w') (hin : w'.InPlace target) :
    w.Displays w' content target := by
  cases target with
  | region r => exact shows_splice hf ht h hin
  | contents n => exact shows_replaceChildren hf ht (ho n rfl) h

end

end World

/-- What the fragment of the last round had in it stands in the place. -/
theorem Round.Puts.shows (h : a.Puts x w') (hin : w'.InPlace x.target) :
    a.realized.Displays w' a.fragment x.target := by
  obtain ⟨hready, w₁, hput, hpages, hregions⟩ := h
  have heq : ∀ n, w'.childrenOf n = w₁.childrenOf n := fun n => by
    simp only [World.childrenOf, World.slot, World.page, hpages]
  have hin₁ : w₁.InPlace x.target := by
    cases ht : x.target with
    | region r => simpa only [ht, World.InPlace, World.region, hregions, heq] using hin
    | contents n => trivial
  obtain ⟨hs, hm⟩ := World.shows_put (w := a.realized.pinned a.record.holds) hready.forest hready.type
    (fun _ hn => hready.element hn) hput hin₁
  refine ⟨Eq.trans ?_ hs, fun n hn => Eq.trans ?_ (hm n hn)⟩
  · cases x.target with
    | region r => simp only [World.standing, World.contents, World.region, World.page, hpages, hregions]
    | contents n => exact heq n
  · simp only [World.markup, World.page, hpages]

/-! ## Rebuilding with everything that is told meanwhile -/

/-- Being told the value makes the place, which was at rest, go through rounds. What it is told during
them decides what the last one is for, and nothing waits in the end. The records that it had before
are killed, those that the rounds before the last one made as well, each of them once, and nobody can
kill them again. The one record that is left is that of the last round, and if the place is still
there, its contents are what was realized in that. -/
structure Folds (s : SiteId) (x : Site) (v : Value) (earlier : List Round) (last : Round)
    (w w' : World) : Prop where
  rounds : Rounds s { x with busy := true } v earlier last
    (w.marked s fun x => { x with busy := true }) w'
  value : (v :: (earlier ++ [last]).flatMap (·.told)).getLast? = some last.value
  rests : w'.sites[s.index]? = some { x with busy := false, queued := none }
  record : w'.recordsIn x.records = [last.record]
  killed : (earlier ++ [last]).flatMap (·.killed) = w.recordsIn x.records ++ earlier.map (·.record)
  once : (((earlier ++ [last]).flatMap (·.killed)).map (·.children)).Nodup
  gone : ∀ m ∈ (earlier ++ [last]).flatMap (·.killed), w'.Lacks m.children
  shows : w'.InPlace x.target → last.realized.Displays w' last.fragment x.target

/-- A place on a page is the contents of the region. -/
def World.holdsRegion (w : World) (s : SiteId) (r : RegionId) : Bool :=
  match w.sites[s.index]? with
  | some x => decide (x.surface.page.index < w.pages.size) &&
    match x.target with
    | .region r' => r' == r
    | .contents _ => false
  | none => false

theorem World.exists_of_holdsRegion {r : RegionId} (h : w.holdsRegion s r = true) :
    ∃ x, w.sites[s.index]? = some x ∧ x.surface.page.index < w.pages.size ∧ x.target = .region r := by
  unfold holdsRegion at h
  split at h
  · next x hx =>
    obtain ⟨hpage, htarget⟩ := Bool.and_eq_true_iff.1 h
    refine ⟨x, hx, of_decide_eq_true hpage, ?_⟩
    split at htarget
    · next hr => rw [hr, eq_of_beq htarget]
    · cases htarget
  · cases h

/-- An input with a reference, in a region that follows an observable. -/
def inputRegion : Node :=
  .fragment [.element "input" [("ref", .ref ⟨1⟩)] [] [] none] (some ⟨0⟩)

def inputRoot : PageNode := ⟨⟨0⟩, 0⟩

/-- The observable of the region, the reference, and an empty page. -/
def inputWorld : World where
  cells := #[⟨.state [], .any, .absent, []⟩, ⟨.ref, .any, .absent, []⟩]
  pages := #[{}]
  entered := [⟨0⟩]
  names := { observables := [("content", ⟨0⟩), ("input", ⟨1⟩)] }

/-- The page has a root. -/
def inputRooted : World :=
  inputWorld.withPage ⟨0⟩ (((inputWorld.page ⟨0⟩).created (inputWorld.heldSlots ⟨0⟩)
    (.element { tag := "main" })).2)

theorem unbuilt_inputWorld : inputWorld.Unbuilt where
  forest p := by
    have hpage : inputWorld.page p = {} := by
      obtain ⟨_ | i⟩ := p
      · rfl
      · exact World.page_of_size_le (Nat.le_add_left 1 i)
    rw [hpage]
    exact Document.sound_empty.forest
  acts acts ha := by
    simp [inputWorld] at ha
  registry {c key s} h := by
    have hnone : (inputWorld.cell c).registry = [] := by
      obtain ⟨_ | _ | i⟩ := c
      · rfl
      · rfl
      · rw [World.cell_of_size_le (w := inputWorld) (c := ⟨i + 2⟩) (Nat.le_add_left 2 i)]
        rfl
    rw [hnone] at h
    cases h
  subscribers := nofun
  sites := rfl
  lists _ := rfl
  teardowns := rfl

theorem amid_inputRooted : inputRooted.Amid [] [] :=
  (unbuilt_inputWorld.amid.createNode (by decide)
    (run_createNode ⟨0⟩ (.element { tag := "main" }) inputWorld)).1.amid

theorem ready_inputRooted : (∀ p, inputRooted.activePage = some p → p.index < inputRooted.pages.size) ∧
    inputRooted.Occupied inputRoot :=
  ⟨fun p hp => by cases hp; decide, by decide, by decide⟩

theorem rendered_inputRegion :
    (World.succeeded? (renderInto (respond 8) false inputRoot inputRegion).run
      (inputRooted.pinned [.slot inputRoot])).isSome := by
  decide +kernel

/-- The region has been rendered. -/
def inputRendered : World :=
  ((World.succeeded? _ _).get rendered_inputRegion).2.unpinned.withRecord "page"
    ((World.succeeded? _ _).get rendered_inputRegion).1

theorem amid_inputRendered : inputRendered.Amid [] [] :=
  have hrender : World.Works inputRooted inputRendered :=
    .render ready_inputRooted.1 ready_inputRooted.2 (World.run_of_succeeded rendered_inputRegion)
  hrender.amid amid_inputRooted

/-- When the reference changes, the first time, the observable of the region is updated. -/
def onInput : Step := .subscribe "input" "onInput" [.update "content" (.value (.scalar (.str "reset")))] 1

/-- Somebody waits for the input to go, and then the observable is emitted, which holds the place. -/
theorem told_inputRegion :
    ∃ h : (World.succeeded? (stepAnswer (respond 8) onInput).run inputRendered).isSome,
      (ended? ((⟨0⟩ : SiteId).onEmission (respond 12) (.scalar (.str "first")))
        (((World.succeeded? _ _).get h).2.pinned [.site ⟨0⟩])).isSome := by
  decide +kernel

/-- Somebody waits for the input to go. -/
def inputSubscribed : World := ((World.succeeded? _ _).get told_inputRegion.fst).2

theorem amid_inputSubscribed : inputSubscribed.Amid [] [] := by
  have hemits : onInput.Emits := .subscribe _ _ _ fun a ha => by
    rw [List.mem_singleton.1 ha]
    exact .update ..
  have hstep : World.Works inputRendered inputSubscribed :=
    .step hemits (World.run_of_succeeded told_inputRegion.fst)
  exact hstep.amid amid_inputRendered

/-- The observable is being emitted, which holds the place. -/
def inputEmitting : World := inputSubscribed.pinned [.site ⟨0⟩]

/-- The region has been told to show a text instead. -/
def inputTold : World := (ended? _ _).get told_inputRegion.snd

/-- The opening comment of the region is taken out of the page, the observable is emitted, and what
it is to show then is realized elsewhere. -/
theorem told_torn :
    ∃ h : (World.succeeded? (inputRoot.removeChild (inputRendered.region ⟨0⟩).start)
        inputRendered).isSome,
      ∃ h' : (ended? ((⟨0⟩ : SiteId).onEmission (respond 12) (.scalar (.str "two")))
        (((World.succeeded? _ _).get h).2.pinned [.site ⟨0⟩])).isSome,
      (World.succeeded? (realize (respond 8) false
        (((ended? _ _).get h').nodeOf (.scalar (.str "two")))).run ((ended? _ _).get h')).isSome := by
  decide +kernel

/-- The opening comment has been taken out of the page, and the observable is being emitted. -/
def tornEmitting : World := ((World.succeeded? _ _).get told_torn.fst).2.pinned [.site ⟨0⟩]

theorem amid_tornEmitting : tornEmitting.Amid [] [] :=
  have hremoved := amid_inputRendered.removeChild (World.run_of_succeeded told_torn.fst)
  hremoved.amid.pinned _

def tornTold : World := (ended? _ _).get told_torn.snd.fst

/-- What the text is realized as, and the world that has that. -/
def twoRealized : Realization × World := (World.succeeded? _ _).get told_torn.snd.snd

end LivePage
