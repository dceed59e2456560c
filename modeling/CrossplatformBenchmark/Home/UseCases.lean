import CrossplatformBenchmark.Lib.Transition

/-!
# The home page and its use cases (Models.kt, Homepage.kt)

The home page has a tab for each stack that the platform supports. A tab lists use cases in groups; a group shows its
children when it is expanded, and a tap on a child opens it. From there on the use case is two strings: the identifier of
its stack and its own. They are looked up again in five places (MainActivity.kt:29-33, ComposeActivity.kt:33-36,
AppDelegate.swift:27-33, SwiftUIView.swift:16-25, MainViewController.kt:12-16, App.tsx:7-14).

* `route_tap` — on every page, what is tapped is looked up as the tab's own framework and the screen its title names.
* `tap_reached` — and every child of every page can be tapped.
-/

namespace CrossplatformBenchmark.Home

/-! ## Models.kt -/

structure FrameworkStack where
  title : String
  id : String
  deriving DecidableEq

structure UseCase where
  stack : String
  id : String
  title : String
  description : Option String := none

structure NestedUseCase where
  root : UseCase
  children : List UseCase

namespace Stacks

def swiftUIId : String := "stack_swiftui_id"
def swiftUITitle : String := "SwiftUI"
def reactNativeId : String := "stack_react_native_id"
def reactNativeTitle : String := "React Native"
def composeId : String := "stack_compose_id"
def composeTitle : String := "Compose"

end Stacks

namespace UseCases

def intentId : String := "usecase_id"
def intentTitle : String := "usecase_title"
def reduxId : String := "redux_id"
def reduxTitle : String := "Redux"
def reduxCounterId : String := "redux_counter_id"
def reduxCounterTitle : String := "Redux Counter"
def imageId : String := "image_id"
def imageTitle : String := "Images"
def imageRemoteId : String := "image_remote_id"
def imageRemoteTitle : String := "Remote images"

end UseCases

inductive Framework where
  | compose
  | reactNative
  | swiftUI
  deriving DecidableEq

/-- `FrameworkStacks` -/
def Framework.stack : Framework → FrameworkStack
  | .compose => ⟨Stacks.composeTitle, Stacks.composeId⟩
  | .reactNative => ⟨Stacks.reactNativeTitle, Stacks.reactNativeId⟩
  | .swiftUI => ⟨Stacks.swiftUITitle, Stacks.swiftUIId⟩

/-! ## Homepage.kt -/

def tabContent (stack imageRootId imageDescription : String) : List NestedUseCase :=
  [{ root := { stack := stack, id := UseCases.reduxId, title := UseCases.reduxTitle }
     children := [{ stack := stack, id := UseCases.reduxCounterId, title := UseCases.reduxCounterTitle
                    description := some "A counter implementation using Redux." }] },
   { root := { stack := stack, id := imageRootId, title := UseCases.imageTitle }
     children := [{ stack := stack, id := UseCases.imageRemoteId, title := UseCases.imageRemoteTitle
                    description := some imageDescription }] }]

def composeTabContent : List NestedUseCase :=
  tabContent Stacks.composeId UseCases.imageId "Loading of remote images via coil library"

def reactNativeTabContent : List NestedUseCase :=
  tabContent Stacks.reactNativeId UseCases.imageId "Loading of a grid of remote images"

/-- The second root has the identifier of the first. -/
def swiftUITabContent : List NestedUseCase :=
  tabContent Stacks.swiftUIId UseCases.reduxId "Loading of a grid of remote images"

/-- A page of the pager. -/
def page (frameworkStack : FrameworkStack) : List NestedUseCase :=
  if frameworkStack = Framework.compose.stack then composeTabContent
  else if frameworkStack = Framework.reactNative.stack then reactNativeTabContent
  else if frameworkStack = Framework.swiftUI.stack then swiftUITabContent
  else []

/-- `SwipeableTabs`, with the `isExpanded` of each item of each page. -/
structure SwipeableTabs where
  currentPage : Nat := 0
  isExpanded : Nat → Nat → Bool := fun _ _ => false

inductive TabEvent where
  | scroll (page : Nat)
  | toggle (item : Nat)
  /-- A page leaves the pager, and its items are forgotten. -/
  | dispose (page : Nat)

namespace SwipeableTabs

variable (supportedStacks : List FrameworkStack)

def step (s : SwipeableTabs) : TabEvent → Option SwipeableTabs
  | .scroll page => if page < supportedStacks.length then some { s with currentPage := page } else none
  | .toggle item => supportedStacks[s.currentPage]?.bind fun stack => (page stack)[item]?.map fun _ =>
    let items := s.isExpanded s.currentPage
    { s with isExpanded := Function.update s.isExpanded s.currentPage (Function.update items item (!items item)) }
  | .dispose page => some { s with isExpanded := Function.update s.isExpanded page fun _ => false }

/-- A `UseCaseItem` on the screen is tapped. -/
def tap (s : SwipeableTabs) (item child : Nat) : Option UseCase :=
  supportedStacks[s.currentPage]?.bind fun stack => (page stack)[item]?.bind fun nested =>
    if s.isExpanded s.currentPage item then nested.children[child]? else none

/-- The pager saves its page, the items do not save theirs. -/
def recreated (s : SwipeableTabs) : SwipeableTabs := { currentPage := s.currentPage }

end SwipeableTabs

/-- From a page that shows nothing but its items: the tab, the item, and its child is there to tap. -/
theorem tap_reached {supportedStacks : List FrameworkStack} {p item child : Nat} {stack : FrameworkStack}
    {nested : NestedUseCase} {useCase : UseCase} (hs : supportedStacks[p]? = some stack)
    (hn : (page stack)[item]? = some nested) (hc : nested.children[child]? = some useCase) :
    ∃ tabs tabs', ({} : SwipeableTabs).step supportedStacks (.scroll p) = some tabs ∧
      tabs.step supportedStacks (.toggle item) = some tabs' ∧ tabs'.currentPage = p ∧
      tabs'.tap supportedStacks item child = some useCase := by
  let unfolded : SwipeableTabs := ⟨p, Function.update (fun _ _ => false) p (Function.update (fun _ => false) item true)⟩
  have htoggle : SwipeableTabs.step supportedStacks { currentPage := p } (.toggle item) = some unfolded := by
    simp only [SwipeableTabs.step, hs, hn, Option.bind_some, Option.map_some, unfolded]
    rfl
  refine ⟨{ currentPage := p }, unfolded, if_pos (List.getElem?_eq_some_iff.1 hs).1, htoggle, rfl, ?_⟩
  simp [SwipeableTabs.tap, unfolded, hs, hn, hc]

/-! ## Looking a use case up -/

inductive Content where
  | counter
  | remoteImages
  | home
  | text (text : String)
  | empty
  deriving DecidableEq

def content (counterId imageId : String) (otherwise : String → Content) (useCaseId : String) : Content :=
  if useCaseId = counterId then .counter else if useCaseId = imageId then .remoteImages else otherwise useCaseId

/-- ComposeActivity.kt:32-37 -/
def composeContent : String → Content := content UseCases.reduxCounterId UseCases.imageRemoteId fun _ => .empty

/-- App.tsx:6-15 -/
def handleUsecase : String → Content :=
  content "redux_counter_id" "image_remote_id" fun useCaseID => .text ("Usecase " ++ useCaseID ++ " unhandled!")

/-- SwiftUIView.swift:15-27 -/
def swiftUIView : String → Content :=
  content UseCases.reduxCounterId UseCases.imageRemoteId fun useCaseId => .text ("Unknown useCase: " ++ useCaseId)

/-- MainViewController.kt:11-16 -/
def mainViewController : String → Content := content UseCases.reduxCounterId UseCases.imageRemoteId fun _ => .home

/-! ## What a tap means -/

/-- What the user reads on the item. -/
def Content.Titled (title : String) : Content → Prop
  | .counter => title = UseCases.reduxCounterTitle
  | .remoteImages => title = UseCases.imageRemoteTitle
  | _ => False

/-- The use case is of this framework, and every look-up of its identifier finds what its title says. -/
def UseCase.Routed (useCase : UseCase) (framework : Framework) (shown : Content) : Prop :=
  useCase.stack = framework.stack.id ∧ shown.Titled useCase.title ∧ ∀ otherwise,
    content UseCases.reduxCounterId UseCases.imageRemoteId otherwise useCase.id = shown

theorem page_stack (framework : Framework) :
    ∃ imageRootId imageDescription, page framework.stack = tabContent framework.stack.id imageRootId imageDescription := by
  cases framework with
  | compose => exact ⟨_, _, rfl⟩
  | reactNative => exact ⟨_, _, rfl⟩
  | swiftUI => exact ⟨_, _, rfl⟩

theorem routed_child {framework : Framework} {nested : NestedUseCase} (hn : nested ∈ page framework.stack)
    {useCase : UseCase} (hu : useCase ∈ nested.children) : ∃ shown, useCase.Routed framework shown := by
  obtain ⟨imageRootId, imageDescription, hpage⟩ := page_stack framework
  rw [hpage] at hn
  simp only [tabContent, List.mem_cons, List.not_mem_nil, or_false] at hn
  rcases hn with rfl | rfl
  · obtain rfl := List.mem_singleton.1 hu
    exact ⟨.counter, rfl, rfl, fun _ => rfl⟩
  · obtain rfl := List.mem_singleton.1 hu
    exact ⟨.remoteImages, rfl, rfl, fun _ => rfl⟩

/-- **What is tapped is what is opened**, on the page of each framework. -/
theorem route_tap {frameworks : List Framework} {tabs : SwipeableTabs} {item child : Nat} {useCase : UseCase}
    (h : tabs.tap (frameworks.map Framework.stack) item child = some useCase) :
    ∃ framework shown, frameworks[tabs.currentPage]? = some framework ∧ useCase.Routed framework shown := by
  obtain ⟨stack, hs, hitem⟩ := Option.bind_eq_some_iff.1 h
  obtain ⟨nested, hn, hexpanded⟩ := Option.bind_eq_some_iff.1 hitem
  obtain ⟨-, hchild⟩ := Option.ite_none_right_eq_some.1 hexpanded
  rw [List.getElem?_map, Option.map_eq_some_iff] at hs
  obtain ⟨framework, hf, rfl⟩ := hs
  obtain ⟨shown, hshown⟩ := routed_child (List.mem_of_getElem? hn) (List.mem_of_getElem? hchild)
  exact ⟨framework, shown, hf, hshown⟩

end CrossplatformBenchmark.Home
