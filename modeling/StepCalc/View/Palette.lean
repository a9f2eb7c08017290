import StepCalc.Screen.Style

/-!
# Palette

The colours of the panes, named for what they mark.
-/

namespace StepCalc.Palette

def text : Color := .rgb 205 214 244
def primary : Color := .rgb 137 180 250
def secondary : Color := .rgb 250 179 135
def comment : Color := .rgb 108 112 134
def success : Color := .rgb 166 227 161
def error : Color := .rgb 243 139 168
def number : Color := .rgb 250 179 135
def operator : Color := .rgb 148 226 213
def focusedBorder : Color := .rgb 249 226 175
def border : Color := .rgb 108 112 134
def currentLine : Color := .rgb 50 50 70
def highlight : Color := .rgb 69 71 90
def resolved : Color := .rgb 245 194 231

end StepCalc.Palette
