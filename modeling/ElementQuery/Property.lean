import ElementQuery.Registry

/-!
# Properties and kinds of control

The properties that a search can test and the kinds of control that an automation tree distinguishes,
each with the table of their names. Some of the things have two names, and some names differ from what
the thing is called elsewhere.
-/

namespace ElementQuery

/-! ## Kinds of control

The kinds of control that an automation tree distinguishes, and the table of their names. The table
has one name more than there are kinds: `MainWindow` stands for a window too, and a query for it is
answered by the element that the search starts from.
-/

inductive ControlType where
  | appBar
  | button
  | calendar
  | checkBox
  | comboBox
  | custom
  | dataGrid
  | dataItem
  | document
  | edit
  | group
  | header
  | headerItem
  | hyperlink
  | image
  | list
  | listItem
  | menu
  | menuBar
  | menuItem
  | pane
  | progressBar
  | radioButton
  | scrollBar
  | semanticZoom
  | separator
  | slider
  | spinner
  | splitButton
  | statusBar
  | tab
  | tabItem
  | table
  | text
  | thumb
  | titleBar
  | toolBar
  | toolTip
  | tree
  | treeItem
  | window
  deriving DecidableEq, Inhabited

namespace ControlType

def all : List ControlType :=
  [.appBar, .button, .calendar, .checkBox, .comboBox, .custom, .dataGrid, .dataItem, .document,
   .edit, .group, .header, .headerItem, .hyperlink, .image, .list, .listItem, .menu, .menuBar,
   .menuItem, .pane, .progressBar, .radioButton, .scrollBar, .semanticZoom, .separator, .slider,
   .spinner, .splitButton, .statusBar, .tab, .tabItem, .table, .text, .thumb, .titleBar, .toolBar,
   .toolTip, .tree, .treeItem, .window]

def name : ControlType → String
  | .appBar => "AppBar"
  | .button => "Button"
  | .calendar => "Calendar"
  | .checkBox => "CheckBox"
  | .comboBox => "ComboBox"
  | .custom => "Custom"
  | .dataGrid => "DataGrid"
  | .dataItem => "DataItem"
  | .document => "Document"
  | .edit => "Edit"
  | .group => "Group"
  | .header => "Header"
  | .headerItem => "HeaderItem"
  | .hyperlink => "Hyperlink"
  | .image => "Image"
  | .list => "List"
  | .listItem => "ListItem"
  | .menu => "Menu"
  | .menuBar => "MenuBar"
  | .menuItem => "MenuItem"
  | .pane => "Pane"
  | .progressBar => "ProgressBar"
  | .radioButton => "RadioButton"
  | .scrollBar => "ScrollBar"
  | .semanticZoom => "SemanticZoom"
  | .separator => "Separator"
  | .slider => "Slider"
  | .spinner => "Spinner"
  | .splitButton => "SplitButton"
  | .statusBar => "StatusBar"
  | .tab => "Tab"
  | .tabItem => "TabItem"
  | .table => "Table"
  | .text => "Text"
  | .thumb => "Thumb"
  | .titleBar => "TitleBar"
  | .toolBar => "ToolBar"
  | .toolTip => "ToolTip"
  | .tree => "Tree"
  | .treeItem => "TreeItem"
  | .window => "Window"

/-- The name that addresses the element a search starts from. -/
def mainWindow : String := "MainWindow"

def registry : Registry ControlType :=
  { kind := "Control Type"
    entries := all.map (fun c => (c.name, c)) ++ [(mainWindow, .window)] }

def isMainWindow (name : String) : Bool :=
  Registry.sameName name mainWindow

end ControlType

/-! ## Properties of elements

The properties that a search can test, the kind of value that each of them has, and the table of the
names by which a locator refers to them. Two names of the table stand for the same property:
`Caption` is another word for `Name`. Some names differ from the property's own: `Id` and
`WindowHandle`.
-/

inductive Property where
  | accessKey
  | automationId
  | className
  | controlType
  | helpText
  | isEnabled
  | isPassword
  | name
  | processId
  | nativeWindowHandle
  deriving DecidableEq, Inhabited

inductive ValueKind where
  | text
  | integer
  | boolean
  | controlType
  deriving DecidableEq, Inhabited

namespace Property

def all : List Property :=
  [.accessKey, .automationId, .className, .controlType, .helpText, .isEnabled, .isPassword, .name,
   .processId, .nativeWindowHandle]

def label : Property → String
  | .accessKey => "AccessKey"
  | .automationId => "AutomationId"
  | .className => "ClassName"
  | .controlType => "ControlType"
  | .helpText => "HelpText"
  | .isEnabled => "IsEnabled"
  | .isPassword => "IsPassword"
  | .name => "Name"
  | .processId => "ProcessId"
  | .nativeWindowHandle => "NativeWindowHandle"

def valueKind : Property → ValueKind
  | .isEnabled => .boolean
  | .isPassword => .boolean
  | .processId => .integer
  | .nativeWindowHandle => .integer
  | .controlType => .controlType
  | _ => .text

def registry : Registry Property :=
  { kind := "Condition Type"
    entries :=
      [("AccessKey", .accessKey),
       ("Caption", .name),
       ("ClassName", .className),
       ("ControlType", .controlType),
       ("HelpText", .helpText),
       ("Id", .automationId),
       ("IsEnabled", .isEnabled),
       ("IsPassword", .isPassword),
       ("Name", .name),
       ("ProcessId", .processId),
       ("WindowHandle", .nativeWindowHandle)] }

end Property

end ElementQuery
