import CrossplatformBenchmark.Home.UseCases
import CrossplatformBenchmark.Lib.Table

/-!
# Opening use cases (Platform.android.kt, MainActivity.kt, Platform.ios.kt, AppDelegate.swift)

The shared home page calls `getPlatform().openUseCase`, which calls what the platform's start has left there: on Android
the handler and the context of the last `MainActivity`, on iOS the handler of `AppDelegate`.

| source                                             | here                                        |
|----------------------------------------------------|---------------------------------------------|
| `MainActivity.onCreate` (MainActivity.kt:17-23)    | `.resume`                                   |
| `MainActivity.openUseCase` (MainActivity.kt:26-36) | `MainActivity.openUseCase`                  |
| `AndroidPlatform` (Platform.android.kt:5-26)       | `Android.appContext`, `Android.openUseCase` |
| `ComposeActivity.onCreate` (ComposeActivity.kt:17) | `composeActivity`                           |
| `getLaunchOptions` (ReactNativeActivity.kt:18-31)  | `reactNativeActivity`                       |
| `AppDelegate` (AppDelegate.swift:9-33)             | `IOS.step`, `IOS.openUseCase`               |

Of Android there is the task: its records outlive their instances and the process, and the one on top is created anew
when it is shown. The launcher brings a task to the front, or starts one. Until the next activity is created the one
below can still be tapped. On iOS a controller that presents one already ignores the next.

* `platforms_refine` — on both, what is open is what a plain stack of pages could have open.
* `android_opens`, `ios_opens` — and a tap opens what it names.
* `platforms_reach` — every use case of every page can be opened, from any state.
-/

namespace CrossplatformBenchmark.Home

open Transition

/-! ## A plain stack of pages -/

inductive View where
  | home
  | useCase (framework : Framework) (shown : Content)
  deriving DecidableEq

inductive Gesture where
  | start
  /-- The item of a framework's page that is titled so. -/
  | openUseCase (framework : Framework) (title : String)
  | close

/-- What the title promises. -/
def promised (title : String) : Option Content :=
  if title = UseCases.reduxCounterTitle then some .counter
  else if title = UseCases.imageRemoteTitle then some .remoteImages
  else none

def navigator : Lts (List View) Gesture where
  init := []
  step views
    | .start => if views.isEmpty then some [.home] else none
    | .openUseCase framework title =>
      if .home ∈ views then (promised title).map fun shown => .useCase framework shown :: views else none
    | .close => views.tail?

theorem navigator_closes (closed views : List View) : navigator.Steps (closed ++ views) views := by
  induction closed with
  | nil => exact .refl _ _
  | cons view closed ih => exact (Lts.Steps.single (e := .close) rfl).trans ih

/-- Nothing but what a title promises is ever open. -/
theorem navigator_inductive : navigator.Inductive fun views => ∀ framework shown, View.useCase framework shown ∈ views →
    shown = .counter ∨ shown = .remoteImages where
  init := by simp [navigator]
  step := by
    intro views gesture views' h hs framework shown hm
    cases gesture with
    | start =>
      obtain ⟨-, hs⟩ := Option.ite_none_right_eq_some.1 hs
      obtain rfl := Option.some.inj hs
      simp at hm
    | openUseCase framework' title =>
      obtain ⟨-, hs⟩ := Option.ite_none_right_eq_some.1 hs
      obtain ⟨shown', hp, rfl⟩ := Option.map_eq_some_iff.1 hs
      rcases List.mem_cons.1 hm with he | hm
      · obtain ⟨-, rfl⟩ := View.useCase.inj he
        unfold promised at hp
        split at hp
        · exact .inl (Option.some.inj hp).symm
        · obtain ⟨-, hp⟩ := Option.ite_none_right_eq_some.1 hp
          exact .inr (Option.some.inj hp).symm
      · exact h framework shown hm
    | close =>
      cases views with
      | nil => cases hs
      | cons view views =>
        obtain rfl := Option.some.inj hs
        exact h framework shown (List.mem_cons_of_mem view hm)

theorem promised_titled {shown : Content} {title : String} (h : shown.Titled title) : promised title = some shown := by
  cases shown with
  | counter =>
    obtain rfl : title = UseCases.reduxCounterTitle := h
    rfl
  | remoteImages =>
    obtain rfl : title = UseCases.imageRemoteTitle := h
    rfl
  | home => cases h
  | text text => cases h
  | empty => cases h

/-! ## Android -/

inductive Activity where
  | mainActivity
  | composeActivity
  | reactNativeActivity
  deriving DecidableEq

structure ActivityRecord where
  activity : Activity
  extras : String → Option String := fun _ => none
  /-- The instance, if it is alive. -/
  created : Option Nat := none
  /-- The content of `MainActivity`. -/
  tabs : SwipeableTabs := {}

/-- What the activity shows, and its title. -/
def composeActivity (extras : String → Option String) : Content × String :=
  (composeContent ((extras UseCases.intentId).getD "Unknown Use Case ID"),
    "Native: " ++ (extras UseCases.intentTitle).getD "Unknown Use Case Title")

def reactNativeActivity (extras : String → Option String) : Content × String :=
  (handleUsecase ((extras UseCases.intentId).getD "default"),
    "React native: " ++ (extras UseCases.intentTitle).getD "no title")

namespace ActivityRecord

def view (r : ActivityRecord) : View :=
  match r.activity with
  | .mainActivity => .home
  | .composeActivity => .useCase .compose (composeActivity r.extras).1
  | .reactNativeActivity => .useCase .reactNative (reactNativeActivity r.extras).1

def title (r : ActivityRecord) : String :=
  match r.activity with
  | .mainActivity => "BenchMarker"
  | .composeActivity => (composeActivity r.extras).2
  | .reactNativeActivity => (reactNativeActivity r.extras).2

/-- What outlives the instance. -/
def kept (r : ActivityRecord) : Activity × (String → Option String) := (r.activity, r.extras)

def destroyed (r : ActivityRecord) : ActivityRecord := { r with created := none, tabs := r.tabs.recreated }

end ActivityRecord

/-- The record that `startActivity` puts on top. -/
def MainActivity.openUseCase (useCase : UseCase) : ActivityRecord where
  activity := if Stacks.composeId = useCase.stack then .composeActivity else .reactNativeActivity
  extras := Function.update (Function.update (fun _ => none) UseCases.intentId (some useCase.id)) UseCases.intentTitle
    (some useCase.title)

structure Android where
  /-- Of `AndroidPlatform`; the handler is set with it. -/
  appContext : Option Nat := none
  /-- The top comes first. -/
  task : List ActivityRecord := []
  instances : Nat := 0
  /-- What `check` has thrown. -/
  error : Option String := none

inductive AndroidEvent where
  | launch
  | resume
  | back
  | configurationChange
  | processDeath
  | tab (i : Nat) (e : TabEvent)
  | tap (i item child : Nat)

namespace Android

def frameworks : List Framework := [.compose, .reactNative]

def supportedStacks : List FrameworkStack := frameworks.map Framework.stack

/-- `AndroidPlatform.openUseCase` -/
def openUseCase (s : Android) (useCase : UseCase) : Android :=
  match s.appContext with
  | none =>
    { s with
      error := some "AndroidPlatform has not been initialized. Call AndroidPlatform.initialize(context, handler) first." }
  | some _ => { s with task := MainActivity.openUseCase useCase :: s.task }

def step (s : Android) : AndroidEvent → Option Android
  | .launch => some (if s.task.isEmpty then { s with task := [{ activity := .mainActivity }] } else s)
  | .resume =>
    match s.task with
    | [] => none
    | r :: rest =>
      if r.created.isSome then some s
      else some { s with
        task := { r with created := some s.instances } :: rest
        instances := s.instances + 1
        appContext := if r.activity = .mainActivity then some s.instances else s.appContext }
  | .back =>
    match s.task with
    | [] => none
    | _ :: rest => some { s with task := rest }
  | .configurationChange => some { s with task := s.task.map ActivityRecord.destroyed }
  | .processDeath => some { s with task := s.task.map ActivityRecord.destroyed, appContext := none }
  | .tab i e => s.task[i]?.bind fun r =>
    if r.activity = .mainActivity ∧ r.created.isSome then
      (r.tabs.step supportedStacks e).map fun tabs => { s with task := s.task.set i { r with tabs := tabs } }
    else none
  | .tap i item child => s.task[i]?.bind fun r =>
    if r.activity = .mainActivity ∧ r.created.isSome then (r.tabs.tap supportedStacks item child).map s.openUseCase
    else none

def views (s : Android) : List View := s.task.map ActivityRecord.view

end Android

def android : Lts Android AndroidEvent := ⟨{}, Android.step⟩

/-! ### What holds on Android -/

def Framework.titlePrefix : Framework → String
  | .compose => "Native: "
  | _ => "React native: "

theorem openUseCase_routed {useCase : UseCase} {framework : Framework} {shown : Content}
    (h : useCase.Routed framework shown) (hf : framework ∈ Android.frameworks) :
    (MainActivity.openUseCase useCase).view = .useCase framework shown ∧
      (MainActivity.openUseCase useCase).title = framework.titlePrefix ++ useCase.title := by
  obtain ⟨hstack, -, hcontent⟩ := h
  have hid : (MainActivity.openUseCase useCase).extras UseCases.intentId = some useCase.id := by
    simp [MainActivity.openUseCase, UseCases.intentId, UseCases.intentTitle]
  have htitle : (MainActivity.openUseCase useCase).extras UseCases.intentTitle = some useCase.title := by
    simp [MainActivity.openUseCase]
  simp only [Android.frameworks, List.mem_cons, List.not_mem_nil, or_false] at hf
  rcases hf with rfl | rfl
  · have hactivity : (MainActivity.openUseCase useCase).activity = .composeActivity := if_pos hstack.symm
    simp only [ActivityRecord.view, ActivityRecord.title, hactivity, composeActivity, hid, htitle, Option.getD_some]
    exact ⟨congrArg _ (hcontent _), rfl⟩
  · have hactivity : (MainActivity.openUseCase useCase).activity = .reactNativeActivity := by
      refine if_neg fun he => ?_
      have hne : Stacks.composeId ≠ Stacks.reactNativeId := by decide
      exact hne (he.trans hstack)
    simp only [ActivityRecord.view, ActivityRecord.title, hactivity, reactNativeActivity, hid, htitle, Option.getD_some]
    exact ⟨congrArg _ (hcontent _), rfl⟩

namespace Android

/-- Only the instance of `MainActivity` that is alive can be tapped, and it is the context. -/
structure Sound (s : Android) : Prop where
  error : s.error = none
  main : (s.task.map (·.activity)).count .mainActivity ≤ 1
  context : ∀ r ∈ s.task, r.activity = .mainActivity → ∀ a, r.created = some a → s.appContext = some a

variable {s t : Android}

/-- The records are touched, not what they are of. -/
theorem Sound.touch (h : s.Sound) (hk : t.task.map ActivityRecord.kept = s.task.map ActivityRecord.kept)
    (he : t.error = s.error)
    (hc : ∀ r ∈ t.task, r.activity = .mainActivity → ∀ a, r.created = some a → t.appContext = some a) :
    t.Sound ∧ t.views = s.views := by
  have hactivity : ∀ u : Android, u.task.map (·.activity) = (u.task.map ActivityRecord.kept).map Prod.fst := by
    intro u
    rw [List.map_map]
    rfl
  have hviews : ∀ u : Android, u.views = (u.task.map ActivityRecord.kept).map fun k => ActivityRecord.view ⟨k.1, k.2, none, {}⟩ := by
    simp [views, ActivityRecord.kept, ActivityRecord.view]
  refine ⟨⟨he.trans h.error, ?_, hc⟩, ?_⟩
  · rw [hactivity, hk, ← hactivity]
    exact h.main
  · rw [hviews, hk, ← hviews]

theorem Sound.destroyed (h : s.Sound) (context : Option Nat) :
    Sound { s with task := s.task.map ActivityRecord.destroyed, appContext := context } ∧
      views { s with task := s.task.map ActivityRecord.destroyed, appContext := context } = s.views := by
  refine h.touch (by simp [ActivityRecord.kept, ActivityRecord.destroyed]) rfl fun r hr _ a ha => ?_
  obtain ⟨r', -, rfl⟩ := List.mem_map.1 hr
  cases ha

/-- The activity on top is created. -/
theorem Sound.resume (h : s.Sound) {r : ActivityRecord} {rest : List ActivityRecord} (htask : s.task = r :: rest) :
    let t : Android := { s with
      task := { r with created := some s.instances } :: rest
      instances := s.instances + 1
      appContext := if r.activity = .mainActivity then some s.instances else s.appContext }
    t.Sound ∧ t.views = s.views := by
  refine h.touch (by simp [htask, ActivityRecord.kept]) rfl fun r' hr' hm a ha => ?_
  rcases List.mem_cons.1 hr' with rfl | hr'
  · rw [← ha]
    exact if_pos hm
  · -- then the one on top is another activity
    have hother : r.activity ≠ .mainActivity := by
      intro hr
      have hmain := h.main
      have hpos : 0 < (rest.map (·.activity)).count .mainActivity :=
        List.count_pos_iff.2 (hm ▸ List.mem_map_of_mem hr')
      rw [htask, List.map_cons, hr, List.count_cons_self] at hmain
      omega
    rw [← h.context r' (htask ▸ List.mem_cons_of_mem r hr') hm a ha]
    exact if_neg hother

/-- A tap opens what it names. -/
theorem Sound.tap (h : s.Sound) {r : ActivityRecord} (hr : r ∈ s.task) (hm : r.activity = .mainActivity)
    (hc : r.created.isSome) {item child : Nat} {useCase : UseCase}
    (ht : r.tabs.tap supportedStacks item child = some useCase) :
    ∃ framework shown, frameworks[r.tabs.currentPage]? = some framework ∧ shown.Titled useCase.title ∧
      (s.openUseCase useCase).Sound ∧ (s.openUseCase useCase).views = .useCase framework shown :: s.views ∧
      (s.openUseCase useCase).task.head?.map ActivityRecord.title = some (framework.titlePrefix ++ useCase.title) := by
  obtain ⟨framework, shown, hf, hrouted⟩ := route_tap ht
  obtain ⟨hview, htitle⟩ := openUseCase_routed hrouted (List.mem_of_getElem? hf)
  obtain ⟨a, ha⟩ := Option.isSome_iff_exists.1 hc
  have hcontext := h.context r hr hm a ha
  have hopen : s.openUseCase useCase = { s with task := MainActivity.openUseCase useCase :: s.task } := by
    simp only [openUseCase, hcontext]
  have hactivity : (MainActivity.openUseCase useCase).activity ≠ .mainActivity := by
    intro he
    rw [ActivityRecord.view, he] at hview
    cases hview
  rw [hopen]
  refine ⟨framework, shown, hf, hrouted.2.1, ⟨h.error, ?_, fun r' hr' hm' b hb => ?_⟩, ?_, congrArg some htitle⟩
  · rw [List.map_cons, List.count_cons_of_ne hactivity]
    exact h.main
  · rcases List.mem_cons.1 hr' with rfl | hr'
    · exact absurd hm' hactivity
    · exact h.context r' hr' hm' b hb
  · rw [views, List.map_cons, hview]
    rfl

theorem Sound.step (h : s.Sound) {e : AndroidEvent} (ht : s.step e = some t) :
    t.Sound ∧ navigator.Steps s.views t.views := by
  have hsame : ∀ {u : Android}, u.Sound ∧ u.views = s.views → u.Sound ∧ navigator.Steps s.views u.views :=
    fun hu => ⟨hu.1, hu.2 ▸ .refl _ _⟩
  cases e with
  | launch =>
    obtain rfl := Option.some.inj ht
    split
    · rename_i hempty
      have hviews : s.views = [] := by rw [views, List.isEmpty_iff.1 hempty, List.map_nil]
      refine ⟨⟨h.error, by simp, by simp⟩, ?_⟩
      rw [hviews]
      exact .single (e := .start) rfl
    · exact hsame ⟨h, rfl⟩
  | resume =>
    cases htask : s.task with
    | nil => simp [Android.step, htask] at ht
    | cons r rest =>
      simp only [Android.step, htask] at ht
      split at ht
      · obtain rfl := Option.some.inj ht
        exact hsame ⟨h, rfl⟩
      · obtain rfl := Option.some.inj ht
        exact hsame (h.resume htask)
  | back =>
    cases htask : s.task with
    | nil => simp [Android.step, htask] at ht
    | cons r rest =>
      simp only [Android.step, htask, Option.some.injEq] at ht
      subst ht
      have hmain := h.main
      rw [htask] at hmain
      refine ⟨⟨h.error, (List.Sublist.count_le _ ((List.sublist_cons_self r rest).map _)).trans hmain,
        fun r' hr' => h.context r' (htask ▸ List.mem_cons_of_mem r hr')⟩, ?_⟩
      rw [views, htask, List.map_cons]
      exact .single (e := .close) rfl
  | configurationChange =>
    obtain rfl := Option.some.inj ht
    exact hsame (h.destroyed s.appContext)
  | processDeath =>
    obtain rfl := Option.some.inj ht
    exact hsame (h.destroyed none)
  | tab i e =>
    obtain ⟨r, hr, ht⟩ := Option.bind_eq_some_iff.1 ht
    obtain ⟨-, ht⟩ := Option.ite_none_right_eq_some.1 ht
    obtain ⟨tabs, -, rfl⟩ := Option.map_eq_some_iff.1 ht
    refine hsame (h.touch (Table.map_set hr rfl) rfl fun r' hr' hm a ha => ?_)
    rcases List.mem_or_eq_of_mem_set hr' with hr' | rfl
    · exact h.context r' hr' hm a ha
    · exact h.context r (List.mem_of_getElem? hr) hm a ha
  | tap i item child =>
    obtain ⟨r, hr, ht⟩ := Option.bind_eq_some_iff.1 ht
    obtain ⟨⟨hm, hc⟩, ht⟩ := Option.ite_none_right_eq_some.1 ht
    obtain ⟨useCase, htap, rfl⟩ := Option.map_eq_some_iff.1 ht
    have hmem := List.mem_of_getElem? hr
    obtain ⟨framework, shown, -, htitled, hsound, hviews, -⟩ := h.tap hmem hm hc htap
    refine ⟨hsound, ?_⟩
    have hhome : View.home ∈ s.views := by
      have hview : r.view = .home := by rw [ActivityRecord.view, hm]
      exact hview ▸ List.mem_map_of_mem hmem
    have hopen : navigator.step s.views (.openUseCase framework useCase.title) =
        some (.useCase framework shown :: s.views) := by
      simp only [navigator, if_pos hhome, promised_titled htitled, Option.map_some]
    rw [hviews]
    exact .single hopen

theorem refines : Lts.Simulation android navigator fun s views => s.Sound ∧ views = s.views where
  init := ⟨⟨rfl, by simp [android], by simp [android]⟩, rfl⟩
  step := by
    rintro s e t _ ⟨h, rfl⟩ ht
    obtain ⟨hsound, hsteps⟩ := h.step ht
    exact ⟨t.views, hsteps, hsound, rfl⟩

end Android

/-- **A tap opens what it names**, through rotations and deaths of the process: on a `MainActivity` that is alive it never
throws, starts the activity from that instance, and puts on top the page's own framework with the screen and the title
that the item has; what was open stays. -/
theorem android_opens {s : Android} (h : android.Reachable s) {i item child : Nat} {r : ActivityRecord}
    (hr : s.task[i]? = some r) (hm : r.activity = .mainActivity) {a : Nat} (ha : r.created = some a) {useCase : UseCase}
    (ht : r.tabs.tap Android.supportedStacks item child = some useCase) :
    ∃ t framework shown, android.step s (.tap i item child) = some t ∧ t.error = none ∧ s.appContext = some a ∧
      Android.frameworks[r.tabs.currentPage]? = some framework ∧ shown.Titled useCase.title ∧
      t.views = .useCase framework shown :: s.views ∧
      t.task.head?.map ActivityRecord.title = some (framework.titlePrefix ++ useCase.title) := by
  obtain ⟨_, -, hs, rfl⟩ := Android.refines.reachable h
  have hmem := List.mem_of_getElem? hr
  have hc : r.created.isSome := by simp [ha]
  obtain ⟨framework, shown, hf, htitled, hsound, hviews, htitle⟩ := hs.tap hmem hm hc ht
  have hstep : android.step s (.tap i item child) = some (s.openUseCase useCase) := by
    simp [android, Android.step, hr, hm, hc, ht]
  exact ⟨_, framework, shown, hstep, hsound.error, hs.context r hmem hm a ha, hf, htitled, hviews, htitle⟩

/-- After the process has died over a use case: the home page is created anew, folded up. -/
theorem android_opens_anew :
    ∃ s t : Android, android.run {} [.launch, .resume, .tab 0 (.toggle 1), .tap 0 1 0, .resume, .processDeath, .resume,
        .back, .resume, .tab 0 (.toggle 0)] = some s ∧ android.step s (.tap 0 0 0) = some t ∧ t.error = none ∧
      s.appContext = some 3 ∧ ∃ shown : Content, shown.Titled UseCases.reduxCounterTitle ∧
        t.views = [.useCase .compose shown, .home] ∧
        t.task.head?.map ActivityRecord.title = some (Framework.compose.titlePrefix ++ UseCases.reduxCounterTitle) := by
  have hrun : ∃ s r useCase, android.run {} [.launch, .resume, .tab 0 (.toggle 1), .tap 0 1 0, .resume, .processDeath,
      .resume, .back, .resume, .tab 0 (.toggle 0)] = some s ∧ s.task[0]? = some r ∧ r.activity = .mainActivity ∧
      r.created = some 3 ∧ r.tabs.tap Android.supportedStacks 0 0 = some useCase ∧ r.tabs.currentPage = 0 ∧
      useCase.title = UseCases.reduxCounterTitle ∧ s.views = [.home] :=
    ⟨_, _, _, rfl, rfl, rfl, rfl, rfl, rfl, rfl, rfl⟩
  obtain ⟨s, r, useCase, hs, hr, hm, hc, htap, hpage, htitle, hviews⟩ := hrun
  obtain ⟨t, framework, shown, ht, herror, hcontext, hf, htitled, hopen, hhead⟩ := android_opens ⟨_, hs⟩ hr hm hc htap
  rw [hpage] at hf
  obtain rfl : framework = .compose := (Option.some.inj hf).symm
  rw [htitle] at htitled hhead
  rw [hviews] at hopen
  exact ⟨s, t, hs, ht, herror, hcontext, shown, htitled, hopen, hhead⟩

/-! ## iOS -/

/-- A controller of `AppDelegate.openUseCase`. -/
def AppDelegate.viewController (useCase : UseCase) : Framework × Content :=
  if useCase.stack = Stacks.composeId then (.compose, mainViewController useCase.id)
  else if useCase.stack = Stacks.reactNativeId then (.reactNative, handleUsecase useCase.id)
  else (.swiftUI, swiftUIView useCase.id)

structure IOS where
  /-- `handleUseCase` of `IOSPlatform` is set. -/
  isInitialized : Bool := false
  /-- What the root controller of the window shows. -/
  rootViewController : Option Content := none
  tabs : SwipeableTabs := {}
  presented : Option (Framework × Content) := none
  error : Option String := none

inductive IOSEvent where
  | didFinishLaunching
  | tab (e : TabEvent)
  | tap (item child : Nat)
  /-- The close button of a Compose screen, or a swipe. -/
  | dismiss
  | terminate

namespace IOS

def frameworks : List Framework := [.swiftUI, .compose, .reactNative]

def supportedStacks : List FrameworkStack := frameworks.map Framework.stack

/-- `IOSPlatform.openUseCase` -/
def openUseCase (s : IOS) (useCase : UseCase) : IOS :=
  if s.isInitialized then { s with presented := s.presented.or (some (AppDelegate.viewController useCase)) }
  else
    { s with error := some "IOSPlatform has not been initialized. Call IOSPlatform.initialize(handler) first." }

def step (s : IOS) : IOSEvent → Option IOS
  | .didFinishLaunching =>
    if s.rootViewController.isNone then
      some { s with isInitialized := true, rootViewController := some (mainViewController "") }
    else none
  | .tab e =>
    if s.rootViewController = some .home then (s.tabs.step supportedStacks e).map fun tabs => { s with tabs := tabs }
    else none
  | .tap item child =>
    if s.rootViewController = some .home then (s.tabs.tap supportedStacks item child).map s.openUseCase else none
  | .dismiss => some { s with presented := none }
  | .terminate => some {}

def views (s : IOS) : List View :=
  (s.presented.map fun p => View.useCase p.1 p.2).toList ++
    (s.rootViewController.map fun shown => if shown = .home then View.home else .useCase .compose shown).toList

end IOS

def ios : Lts IOS IOSEvent := ⟨{}, IOS.step⟩

/-! ### What holds on iOS -/

theorem viewController_routed {useCase : UseCase} {framework : Framework} {shown : Content}
    (h : useCase.Routed framework shown) : AppDelegate.viewController useCase = (framework, shown) := by
  obtain ⟨hstack, -, hcontent⟩ := h
  unfold AppDelegate.viewController
  cases framework with
  | compose =>
    have hs : useCase.stack = Stacks.composeId := hstack
    rw [if_pos hs, mainViewController, hcontent]
  | reactNative =>
    have hs : useCase.stack = Stacks.reactNativeId := hstack
    have hne : Stacks.reactNativeId ≠ Stacks.composeId := by decide
    rw [if_neg (fun he => hne (hs.symm.trans he)), if_pos hs]
    exact congrArg _ (hcontent _)
  | swiftUI =>
    have hs : useCase.stack = Stacks.swiftUIId := hstack
    have hne : Stacks.swiftUIId ≠ Stacks.composeId ∧ Stacks.swiftUIId ≠ Stacks.reactNativeId := by decide
    rw [if_neg (fun he => hne.1 (hs.symm.trans he)), if_neg (fun he => hne.2 (hs.symm.trans he)), swiftUIView, hcontent]

namespace IOS

structure Sound (s : IOS) : Prop where
  error : s.error = none
  root : s.rootViewController = none ∧ s.presented = none ∨ s.rootViewController = some .home ∧ s.isInitialized = true

variable {s t : IOS}

theorem views_home (h : s.rootViewController = some .home) :
    s.views = (s.presented.map fun p => View.useCase p.1 p.2).toList ++ [.home] := by
  rw [views, h]
  rfl

/-- A tap opens what it names, or nothing while another use case is open. -/
theorem Sound.tap (h : s.Sound) (hroot : s.rootViewController = some .home) {item child : Nat} {useCase : UseCase}
    (ht : s.tabs.tap supportedStacks item child = some useCase) :
    ∃ framework shown, frameworks[s.tabs.currentPage]? = some framework ∧ shown.Titled useCase.title ∧
      (s.openUseCase useCase).Sound ∧
      (s.openUseCase useCase).views = if s.presented.isSome then s.views else [.useCase framework shown, .home] := by
  obtain ⟨framework, shown, hf, hrouted⟩ := route_tap ht
  have hinitialized : s.isInitialized = true := by
    rcases h.root with ⟨hnone, -⟩ | ⟨-, hinitialized⟩
    · rw [hnone] at hroot
      cases hroot
    · exact hinitialized
  have hopen : s.openUseCase useCase = { s with presented := s.presented.or (some (framework, shown)) } := by
    rw [openUseCase, if_pos hinitialized, viewController_routed hrouted]
  rw [hopen]
  refine ⟨framework, shown, hf, hrouted.2.1, ⟨h.error, .inr ⟨hroot, hinitialized⟩⟩, ?_⟩
  have hviews : views { s with presented := s.presented.or (some (framework, shown)) } =
      ((s.presented.or (some (framework, shown))).map fun p => View.useCase p.1 p.2).toList ++ [.home] := views_home hroot
  rw [hviews]
  cases hp : s.presented with
  | none => rfl
  | some p =>
    rw [views_home hroot, hp]
    rfl

theorem Sound.step (h : s.Sound) {e : IOSEvent} (ht : s.step e = some t) : t.Sound ∧ navigator.Steps s.views t.views := by
  cases e with
  | didFinishLaunching =>
    obtain ⟨hroot, ht⟩ := Option.ite_none_right_eq_some.1 ht
    obtain rfl := Option.some.inj ht
    rcases h.root with ⟨hnone, hp⟩ | ⟨hsome, -⟩
    · refine ⟨⟨h.error, .inr ⟨rfl, rfl⟩⟩, ?_⟩
      have hviews : s.views = [] := by rw [views, hnone, hp]; rfl
      rw [hviews, views_home rfl]
      simp only [hp]
      exact .single (e := .start) rfl
    · simp [hsome] at hroot
  | tab e =>
    obtain ⟨hroot, ht⟩ := Option.ite_none_right_eq_some.1 ht
    obtain ⟨tabs, -, rfl⟩ := Option.map_eq_some_iff.1 ht
    exact ⟨⟨h.error, h.root⟩, .refl _ _⟩
  | tap item child =>
    obtain ⟨hroot, ht⟩ := Option.ite_none_right_eq_some.1 ht
    obtain ⟨useCase, htap, rfl⟩ := Option.map_eq_some_iff.1 ht
    obtain ⟨framework, shown, -, htitled, hsound, hviews⟩ := h.tap hroot htap
    refine ⟨hsound, ?_⟩
    rw [hviews, views_home hroot]
    cases hp : s.presented with
    | none =>
      have hopen : navigator.step [.home] (.openUseCase framework useCase.title) = some [.useCase framework shown, .home] := by
        simp [navigator, promised_titled htitled]
      exact .single hopen
    | some p => exact .refl _ _
  | dismiss =>
    obtain rfl := Option.some.inj ht
    exact ⟨⟨h.error, h.root.imp (fun hr => ⟨hr.1, rfl⟩) id⟩, navigator_closes _ _⟩
  | terminate =>
    obtain rfl := Option.some.inj ht
    have hclosed := navigator_closes s.views []
    rw [List.append_nil] at hclosed
    exact ⟨⟨rfl, .inl ⟨rfl, rfl⟩⟩, hclosed⟩

theorem refines : Lts.Simulation ios navigator fun s views => s.Sound ∧ views = s.views where
  init := ⟨⟨rfl, .inl ⟨rfl, rfl⟩⟩, rfl⟩
  step := by
    rintro s e t _ ⟨h, rfl⟩ ht
    obtain ⟨hsound, hsteps⟩ := h.step ht
    exact ⟨t.views, hsteps, hsound, rfl⟩

end IOS

/-- **A tap opens what it names** on iOS, unless a use case is open already: then nothing happens. -/
theorem ios_opens {s : IOS} (h : ios.Reachable s) (hroot : s.rootViewController = some .home) {item child : Nat}
    {useCase : UseCase} (ht : s.tabs.tap IOS.supportedStacks item child = some useCase) :
    ∃ t framework shown, ios.step s (.tap item child) = some t ∧ t.error = none ∧
      IOS.frameworks[s.tabs.currentPage]? = some framework ∧ shown.Titled useCase.title ∧
      t.views = if s.presented.isSome then s.views else [.useCase framework shown, .home] := by
  obtain ⟨_, -, hs, rfl⟩ := IOS.refines.reachable h
  obtain ⟨framework, shown, hf, htitled, hsound, hviews⟩ := hs.tap hroot ht
  have hstep : ios.step s (.tap item child) = some (s.openUseCase useCase) := by
    simp [ios, IOS.step, hroot, ht]
  exact ⟨_, framework, shown, hstep, hsound.error, hf, htitled, hviews⟩

/-- The last tab, whose page is React Native's. -/
theorem ios_opens_reactNative :
    ∃ s t : IOS, ios.run {} [.didFinishLaunching, .tab (.scroll 2), .tab (.toggle 1)] = some s ∧
      ios.step s (.tap 1 0) = some t ∧ t.error = none ∧ ∃ shown : Content, shown.Titled UseCases.imageRemoteTitle ∧
        t.views = [.useCase .reactNative shown, .home] := by
  have hrun : ∃ s useCase, ios.run {} [.didFinishLaunching, .tab (.scroll 2), .tab (.toggle 1)] = some s ∧
      s.rootViewController = some .home ∧ s.tabs.tap IOS.supportedStacks 1 0 = some useCase ∧ s.tabs.currentPage = 2 ∧
      useCase.title = UseCases.imageRemoteTitle ∧ s.presented = none := ⟨_, _, rfl, rfl, rfl, rfl, rfl, rfl⟩
  obtain ⟨s, useCase, hs, hroot, htap, hpage, htitle, hpresented⟩ := hrun
  obtain ⟨t, framework, shown, ht, herror, hf, htitled, hopen⟩ := ios_opens ⟨_, hs⟩ hroot htap
  rw [hpage] at hf
  obtain rfl : framework = .reactNative := (Option.some.inj hf).symm
  rw [htitle] at htitled
  rw [hpresented] at hopen
  exact ⟨s, t, hs, ht, herror, shown, htitled, hopen⟩

/-- **Both platforms are a stack of pages**: in every run nothing is thrown, what is open is what a user of the plain
stack could have opened, and so no screen is ever one for an unknown use case. -/
theorem platforms_refine :
    (∀ s, android.Reachable s → s.error = none ∧ navigator.Reachable s.views ∧ ∀ framework shown,
      View.useCase framework shown ∈ s.views → shown = .counter ∨ shown = .remoteImages) ∧
    ∀ s, ios.Reachable s → s.error = none ∧ navigator.Reachable s.views ∧ ∀ framework shown,
      View.useCase framework shown ∈ s.views → shown = .counter ∨ shown = .remoteImages := by
  constructor
  · intro s h
    obtain ⟨_, hviews, hs, rfl⟩ := Android.refines.reachable h
    exact ⟨hs.error, hviews, navigator_inductive.reachable hviews⟩
  · intro s h
    obtain ⟨_, hviews, hs, rfl⟩ := IOS.refines.reachable h
    exact ⟨hs.error, hviews, navigator_inductive.reachable hviews⟩

/-! ## Every use case can be opened -/

theorem android_clears (s : Android) : android.Steps s { s with task := [] } := by
  obtain ⟨appContext, task, instances, error⟩ := s
  induction task with
  | nil => exact .refl _ _
  | cons r rest ih => exact (Lts.Steps.single (e := .back) rfl).trans ih

/-- Back to the launcher, and through the page to the child. -/
theorem android_reaches {s : Android} (h : android.Reachable s) {p item child : Nat} {framework : Framework}
    {nested : NestedUseCase} {useCase : UseCase} (hf : Android.frameworks[p]? = some framework)
    (hn : (page framework.stack)[item]? = some nested) (hc : nested.children[child]? = some useCase) :
    ∃ t shown, android.Steps s t ∧ shown.Titled useCase.title ∧ t.views = [.useCase framework shown, .home] := by
  have hstack : Android.supportedStacks[p]? = some framework.stack := by
    rw [Android.supportedStacks, List.getElem?_map, hf, Option.map_some]
  obtain ⟨tabs, tabs', hscroll, htoggle, hpage, htap⟩ := tap_reached hstack hn hc
  -- the home page, with the item unfolded
  let home : SwipeableTabs → Android := fun tabs =>
    { s with
      task := [{ activity := .mainActivity, created := some s.instances, tabs := tabs }]
      instances := s.instances + 1
      appContext := some s.instances }
  have hlaunch : android.run { s with task := [] } [.launch, .resume] = some (home {}) := rfl
  have htab : ∀ {tabs tabs' : SwipeableTabs} {e : TabEvent}, tabs.step Android.supportedStacks e = some tabs' →
      android.step (home tabs) (.tab 0 e) = some (home tabs') := by
    intro tabs tabs' e he
    simp [android, Android.step, home, he]
  have hsteps : android.Steps s (home tabs') :=
    (android_clears s).trans (Lts.Steps.trans ⟨_, hlaunch⟩ ((Lts.Steps.single (htab hscroll)).trans (.single (htab htoggle))))
  obtain ⟨_, -, hsound, rfl⟩ := Android.refines.reachable (Lts.Steps.trans h hsteps)
  obtain ⟨framework', shown, hf', htitled, -, hviews, -⟩ :=
    hsound.tap (List.mem_singleton.2 rfl) rfl rfl htap
  obtain rfl : framework = framework' := by
    rw [hpage, hf] at hf'
    exact Option.some.inj hf'
  have hstep : android.step (home tabs') (.tap 0 item child) = some ((home tabs').openUseCase useCase) := by
    simp [android, Android.step, home, htap]
  exact ⟨_, shown, hsteps.trans (.single hstep), htitled, hviews⟩

/-- A new launch, and through the page to the child. -/
theorem ios_reaches {s : IOS} (h : ios.Reachable s) {p item child : Nat} {framework : Framework} {nested : NestedUseCase}
    {useCase : UseCase} (hf : IOS.frameworks[p]? = some framework) (hn : (page framework.stack)[item]? = some nested)
    (hc : nested.children[child]? = some useCase) :
    ∃ t shown, ios.Steps s t ∧ shown.Titled useCase.title ∧ t.views = [.useCase framework shown, .home] := by
  have hstack : IOS.supportedStacks[p]? = some framework.stack := by
    rw [IOS.supportedStacks, List.getElem?_map, hf, Option.map_some]
  obtain ⟨tabs, tabs', hscroll, htoggle, hpage, htap⟩ := tap_reached hstack hn hc
  let home : SwipeableTabs → IOS := fun tabs => { isInitialized := true, rootViewController := some .home, tabs := tabs }
  have hlaunch : ios.run s [.terminate, .didFinishLaunching] = some (home {}) := rfl
  have htab : ∀ {tabs tabs' : SwipeableTabs} {e : TabEvent}, tabs.step IOS.supportedStacks e = some tabs' →
      ios.step (home tabs) (.tab e) = some (home tabs') := by
    intro tabs tabs' e he
    simp [ios, IOS.step, home, he]
  have hsteps : ios.Steps s (home tabs') :=
    Lts.Steps.trans ⟨_, hlaunch⟩ ((Lts.Steps.single (htab hscroll)).trans (.single (htab htoggle)))
  obtain ⟨_, -, hsound, rfl⟩ := IOS.refines.reachable (Lts.Steps.trans h hsteps)
  obtain ⟨framework', shown, hf', htitled, -, hviews⟩ := hsound.tap rfl htap
  obtain rfl : framework = framework' := by
    rw [hpage, hf] at hf'
    exact Option.some.inj hf'
  have hstep : ios.step (home tabs') (.tap item child) = some ((home tabs').openUseCase useCase) := by
    simp [ios, IOS.step, home, htap]
  exact ⟨_, shown, hsteps.trans (.single hstep), htitled, hviews⟩

/-- **Every use case can be opened**, on both platforms and from any state that the app can be in: for each child of each
item of each supported page, the user can get to where just the home page and the screen it names are open. -/
theorem platforms_reach :
    (∀ s, android.Reachable s → ∀ (p item child : Nat) (framework : Framework) (nested : NestedUseCase) (useCase : UseCase),
      Android.frameworks[p]? = some framework → (page framework.stack)[item]? = some nested →
      nested.children[child]? = some useCase →
      ∃ t shown, android.Steps s t ∧ shown.Titled useCase.title ∧ t.views = [.useCase framework shown, .home]) ∧
    ∀ s, ios.Reachable s → ∀ (p item child : Nat) (framework : Framework) (nested : NestedUseCase) (useCase : UseCase),
      IOS.frameworks[p]? = some framework → (page framework.stack)[item]? = some nested →
      nested.children[child]? = some useCase →
      ∃ t shown, ios.Steps s t ∧ shown.Titled useCase.title ∧ t.views = [.useCase framework shown, .home] :=
  ⟨fun _ h _ _ _ _ _ _ hf hn hc => android_reaches h hf hn hc, fun _ h _ _ _ _ _ _ hf hn hc => ios_reaches h hf hn hc⟩

end CrossplatformBenchmark.Home
